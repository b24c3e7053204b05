import PackageManager.Proofs.Traversal
import PackageManager.Proofs.Url.Login

/-!
# Users and hosts that have been read

What a URL has as its user and as its host is written the way it is kept: what had to be encoded is
encoded, and no separator is left. Such a text can stand in a URL again and is not encoded a second
time, and no part of it is taken for something else, whatever the text looked like from which the
URL was read.

## Main results

* `mem_percentEncode` — which characters are in an encoded text.
* `isHostPort_chars`, `cutPort_chars` — the text of a host is taken as a whole where a host is read.
* `exists_authority` — what is known of the authority of a URL without knowing its text.
-/

namespace PackageManager.Url

/-! ## Encoded texts -/

theorem isUnreserved_upperHexDigit {n : Nat} (hn : n < 16) : isUnreserved (upperHexDigit n) := by
  have hAll : ∀ n < 16, isUnreserved (upperHexDigit n) := by decide +kernel
  exact hAll n hn

/-- An encoded text consists of what is not encoded, and of octets. -/
theorem mem_percentEncode {set : Char → Bool} {cs : List Char} {c : Char}
    (hc : c ∈ percentEncode set cs) : (c ∈ cs ∧ set c = false) ∨ c = '%' ∨ isUnreserved c := by
  obtain ⟨d, hd, hc⟩ := List.mem_flatMap.1 hc
  by_cases hSet : set d
  · rw [if_pos hSet] at hc
    obtain ⟨b, -, hc⟩ := List.mem_flatMap.1 hc
    have hHigh : b.toNat / 16 < 16 := by
      have hOctet := b.toNat_lt
      omega
    have hLow : b.toNat % 16 < 16 := Nat.mod_lt _ (by decide)
    simp only [encodeOctet, List.mem_cons, List.not_mem_nil, or_false] at hc
    rcases hc with rfl | rfl | rfl
    · exact .inr (.inl rfl)
    · exact .inr (.inr (isUnreserved_upperHexDigit hHigh))
    · exact .inr (.inr (isUnreserved_upperHexDigit hLow))
  · rw [if_neg hSet, List.mem_singleton] at hc
    subst hc
    exact .inl ⟨hd, Bool.eq_false_iff.2 hSet⟩

theorem isUser_kept_readLogin (cs : List Char) {c : Char} (hc : c ∈ (readLogin cs).1.toList) :
    inUserSet c = false := by
  have hEncoded {user : List Char} (hc : c ∈ percentEncode inUserSet user) :
      inUserSet c = false := by
    rcases mem_percentEncode hc with ⟨-, hKept⟩ | rfl | hUnreserved
    · exact hKept
    · decide
    · exact (kept_of_isUnreserved hUnreserved).1
  unfold readLogin at hc
  dsimp only at hc
  split at hc <;> exact hEncoded (by simpa using hc)

/-! ## Hosts -/

theorem isUnreserved_of_mem_hexDigits {n : Nat} {c : Char} (hc : c ∈ Text.hexDigits n) :
    isUnreserved c := by
  have hDigit : ∀ m < 16, isUnreserved (Nat.digitChar m) := by decide +kernel
  induction n using Nat.base_induction 16 (by decide) with
  | single m hm =>
      rw [Text.hexDigits, Nat.toDigits_of_lt_base hm, List.mem_singleton] at hc
      exact hc ▸ hDigit m hm
  | digit m k hk hm ih =>
      rw [Text.hexDigits, ← Nat.toDigits_append_toDigits (by decide) hm hk, List.mem_append,
        Nat.toDigits_of_lt_base hk, List.mem_singleton] at hc
      rcases hc with hc | rfl
      · exact ih hc
      · exact hDigit k hk

theorem mem_piecesText {pieces : List Nat} {c : Char} (hc : c ∈ piecesText pieces) :
    c = ':' ∨ isUnreserved c := by
  by_cases hColon : c = ':'
  · exact .inl hColon
  · obtain ⟨part, hPart, hc⟩ := (Text.mem_intercalate_singleton_iff hColon _).1 hc
    obtain ⟨n, -, rfl⟩ := List.mem_map.1 hPart
    exact .inr (isUnreserved_of_mem_hexDigits hc)

/-- An address of 128 bits is written with digits and colons. -/
theorem mem_ipv6Text {pieces : List Nat} {c : Char} (hc : c ∈ ipv6Text pieces) :
    c = ':' ∨ isUnreserved c := by
  unfold ipv6Text at hc
  dsimp only at hc
  split at hc
  · exact mem_piecesText hc
  · simp only [List.mem_append, List.mem_cons, List.not_mem_nil, or_false] at hc
    rcases hc with (hc | hc) | hc
    · exact mem_piecesText hc
    · exact .inl (hc.elim id id)
    · exact mem_piecesText hc

/-- A colon between brackets does not start a port. -/
theorem cutPort_bracketed {inner : List Char} (hOpen : '[' ∉ inner) (hClose : ']' ∉ inner) :
    cutPort false ('[' :: (inner ++ [']'])) = ('[' :: (inner ++ [']']), none) := by
  have hInner : cutPort true (inner ++ [']']) = (inner ++ [']'], none) := by
    induction inner with
    | nil => rfl
    | cons c cs ih =>
        rw [List.mem_cons, not_or] at hOpen hClose
        simp [cutPort, Ne.symm hOpen.1, Ne.symm hClose.1, ih hOpen.2 hClose.2]
  simp [cutPort, hInner]

/-- What an opaque host is read as: a name that is encoded, or an address. -/
theorem opaqueHost_cases {cs : List Char} {h : Host} (hRead : opaqueHost cs = .ok h) :
    (∃ pieces, h = .ipv6 pieces) ∨
      h = .name (String.ofList (percentEncode isControl cs)) ∧
        cs.any forbiddenInOpaque = false := by
  unfold opaqueHost at hRead
  split at hRead
  · unfold bracketed at hRead
    split at hRead
    · split at hRead
      · exact .inl ⟨_, (Except.ok.inj hRead).symm⟩
      · cases hRead
    · cases hRead
  · split at hRead
    · cases hRead
    next hForbidden =>
    exact .inr ⟨(Except.ok.inj hRead).symm, Bool.eq_false_iff.2 hForbidden⟩

theorem isOpaqueName_percentEncode {cs : List Char} (hForbidden : cs.any forbiddenInOpaque = false)
    (hSome : percentEncode isControl cs ≠ []) : IsOpaqueName (percentEncode isControl cs) where
  ne_nil := hSome
  kept c hc := by
    rcases mem_percentEncode hc with ⟨hMem, hControl⟩ | rfl | hUnreserved
    · exact ⟨hControl, Bool.eq_false_iff.2 (List.any_eq_false.1 hForbidden c hMem)⟩
    · decide
    · exact (kept_of_isUnreserved hUnreserved).2

section Chars

variable {cs : List Char} {h : Host}

/-- The text of a host ends neither itself nor the authority. -/
theorem isHostPort_chars (hRead : opaqueHost cs = .ok h) (hSome : h.chars ≠ []) :
    IsHostPort h.chars := by
  rcases opaqueHost_cases hRead with ⟨pieces, rfl⟩ | ⟨rfl, hForbidden⟩
  · have hKept {c : Char} (hc : c ∈ (Host.ipv6 pieces).chars) :
        c = '[' ∨ c = ']' ∨ c = ':' ∨ isUnreserved c := by
      simp only [Host.chars, List.cons_append, List.mem_cons, List.mem_append, List.not_mem_nil,
        or_false] at hc
      rcases hc with rfl | hc | rfl
      · exact .inl rfl
      · exact .inr (.inr (mem_ipv6Text hc))
      · exact .inr (.inl rfl)
    refine ⟨hSome, fun c hc => ?_, fun c hc => ?_⟩
    · rcases hKept hc with rfl | rfl | rfl | hUnreserved
      · decide
      · decide
      · decide
      · exact (visible_of_isAlphanum_or (by decide) hUnreserved).1
    · rcases hKept hc with rfl | rfl | rfl | hUnreserved
      · decide
      · decide
      · decide
      · have hNe {d : Char} (hd : isUnreserved d = false) : c ≠ d :=
          ne_of_isUnreserved hUnreserved hd
        exact ⟨hNe (by decide), hNe (by decide), hNe (by decide), hNe (by decide)⟩
  · simp only [Host.chars, String.toList_ofList] at hSome ⊢
    exact (isOpaqueName_percentEncode hForbidden hSome).isHostPort

/-- The text of a host has no port. -/
theorem cutPort_chars (hRead : opaqueHost cs = .ok h) (hSome : h.chars ≠ []) :
    cutPort false h.chars = (h.chars, none) := by
  rcases opaqueHost_cases hRead with ⟨pieces, rfl⟩ | ⟨rfl, hForbidden⟩
  · have hNone {c : Char} (hColon : c ≠ ':') (hReserved : isUnreserved c = false) :
        c ∉ ipv6Text pieces := fun hMem => by
      rcases mem_ipv6Text hMem with hEq | hUnreserved
      · exact hColon hEq
      · rw [hReserved] at hUnreserved
        cases hUnreserved
    exact cutPort_bracketed (hNone (by decide) (by decide)) (hNone (by decide) (by decide))
  · simp only [Host.chars, String.toList_ofList] at hSome ⊢
    exact cutPort_eq ((isOpaqueName_percentEncode hForbidden hSome).not_mem (by decide)) false

end Chars

/-! ## Whole URLs -/

/-- The authority of a URL in a scheme that knows nothing of addresses. -/
structure IsAuthority (a : Authority) : Prop where
  user : ∀ c ∈ a.user.toList, inUserSet c = false
  host : ∃ cs, opaqueHost cs = .ok a.host

variable {scheme : String}

theorem isAuthority_of_readAuthority (hOpaque : isSpecialScheme scheme = false)
    {cs left : List Char} {pathFollows : Bool} {a : Authority}
    (hRead : readAuthority scheme cs pathFollows = .ok (a, left)) : IsAuthority a := by
  unfold readAuthority at hRead
  simp only [hOpaque, Bool.false_eq_true, false_and, if_false, bind, Except.bind, throw, throwThe,
    MonadExceptOf.throw, pure, Except.pure] at hRead
  -- With a login and without one, the same steps follow.
  split at hRead
  all_goals
    split at hRead
    · cases hRead
    split at hRead
    · cases hRead
    next host hHost =>
    split at hRead
    · cases hRead
    split at hRead
    · split at hRead
      · cases hRead
      split at hRead
      · cases hRead
      obtain rfl := (Prod.mk.inj (Except.ok.inj hRead)).1
      exact ⟨fun c hc => isUser_kept_readLogin _ hc, _, hHost⟩
    · split at hRead
      · cases hRead
      obtain rfl := (Prod.mk.inj (Except.ok.inj hRead)).1
      exact ⟨fun c hc => isUser_kept_readLogin _ hc, _, hHost⟩

theorem Reference.exists_ofChars_slashes (cs : List Char) : ∃ body query fragment,
    Reference.ofChars ('/' :: '/' :: cs) = ⟨'/' :: '/' :: body, query, fragment⟩ := by
  have hBody := (Reference.ofChars_spec ('/' :: '/' :: cs)).1
  generalize Reference.ofChars ('/' :: '/' :: cs) = r at hBody ⊢
  exact ⟨_, r.query, r.fragment, congrArg (Reference.mk · r.query r.fragment) hBody⟩

/-- A URL that starts with a scheme and two slashes has an authority. -/
theorem exists_authority {cs : List Char} {u : Url} (hScheme : IsScheme scheme)
    (hOpaque : isSpecialScheme scheme = false)
    (hRead : parse (String.ofList (scheme.toList ++ ':' :: '/' :: '/' :: cs)) = .ok u) :
    u.scheme = scheme ∧ ∃ a, u.authority = some a ∧ IsAuthority a := by
  have hFile : scheme ≠ "file" := fun hEq => by simp [hEq, isSpecialScheme] at hOpaque
  have hFront : ∀ c ∈ scheme.toList ++ [':', '/', '/'], 0x20 < c.toNat := by
    intro c hc
    rcases List.mem_append.1 hc with hc | hc
    · exact hScheme.visible hc
    · have hSigns : [':', '/', '/'].all fun c => 0x20 < c.toNat := by decide
      exact of_decide_eq_true (List.all_eq_true.1 hSigns c hc)
  obtain ⟨rest, hClean⟩ : ∃ rest, clean (scheme.toList ++ ':' :: '/' :: '/' :: cs) =
      scheme.toList ++ ':' :: '/' :: '/' :: rest := by
    have hKept : clean ((scheme.toList ++ [':', '/', '/']) ++ cs) = _ :=
      clean_append (by simp) hFront
    simp only [List.append_assoc, List.cons_append, List.nil_append] at hKept
    exact ⟨_, hKept⟩
  obtain ⟨body, query, fragment, hReference⟩ := Reference.exists_ofChars_slashes rest
  unfold parse read at hRead
  simp only [String.toList_ofList, hClean, cutScheme_append hScheme, readAbsolute, hReference,
    if_neg hFile, hOpaque, Bool.false_eq_true, if_false] at hRead
  unfold afterSlashes at hRead
  obtain ⟨⟨a, left⟩, hAuthority, hUrl⟩ := ok_of_bind hRead
  obtain rfl := Except.ok.inj hUrl
  exact ⟨rfl, a, rfl, isAuthority_of_readAuthority hOpaque hAuthority⟩

end PackageManager.Url
