import Mathlib.Data.List.DropRight
import Mathlib.Data.List.TakeWhile
import PackageManager.Proofs.Text.Parts
import PackageManager.Url.Parser

/-!
# URLs of a user and a host

A URL is taken apart at one separator after the other, from the outside in, and what stands between
the separators is encoded. A text that has no separator of its own and nothing to encode goes
through all of this as it is. Here this is said of the URLs that have a scheme, a user and a host
and nothing else, in a scheme that knows nothing of addresses and of letter cases.

What may stand in a user and what in a host are different sets of characters. The unreserved
characters are in both, so a text of these is kept wherever it stands.

## Main results

* `parse_text_ofLogin` — such a URL is read from its own text.
* `kept_of_isUnreserved` — unreserved characters are kept in users and in hosts.
-/

namespace PackageManager.Url

/-! ## Texts that stay as they are -/

theorem percentEncode_eq_self {set : Char → Bool} {cs : List Char} (h : ∀ c ∈ cs, set c = false) :
    percentEncode set cs = cs := by
  induction cs with
  | nil => rfl
  | cons c cs ih =>
      have hRest : percentEncode set cs = cs := ih fun d hd => h d (List.mem_cons_of_mem c hd)
      unfold percentEncode at hRest ⊢
      rw [List.flatMap_cons, hRest, h c List.mem_cons_self]
      rfl

theorem visible_of_not_control {c : Char} (hControl : isControl c = false) (hSpace : c ≠ ' ') :
    0x20 < c.toNat := by
  have hFrom : 0x20 ≤ c.toNat := by
    simp only [isControl, Bool.or_eq_false_iff, decide_eq_false_iff_not] at hControl
    omega
  have hNe : c.toNat ≠ 0x20 := fun hEq => hSpace (Char.toNat_inj.1 hEq)
  omega

/-- Tabs and line breaks are not visible. -/
theorem filter_breaks_eq_self {cs : List Char} (h : ∀ c ∈ cs, 0x20 < c.toNat) :
    cs.filter (fun c => c ≠ '\t' ∧ c ≠ '\n' ∧ c ≠ '\r') = cs := by
  rw [List.filter_eq_self]
  intro c hc
  have hVisible := h c hc
  simp only [decide_eq_true_eq]
  refine ⟨?_, ?_, ?_⟩ <;> rintro rfl <;> exact absurd hVisible (by decide)

/-- Nothing is taken away from the beginning of a text if that is visible. At the end of the text
the invisible characters go, and the breaks everywhere. -/
theorem clean_append {front cs : List Char} (hSome : front ≠ [])
    (hFront : ∀ c ∈ front, 0x20 < c.toNat) :
    clean (front ++ cs) = front ++ (cs.rdropWhile fun c => decide (c.toNat ≤ 0x20)).filter
      fun c => c ≠ '\t' ∧ c ≠ '\n' ∧ c ≠ '\r' := by
  have hOuter {ds : List Char} (hds : ds ≠ []) (hVisible : ∀ c ∈ ds, 0x20 < c.toNat)
      (es : List Char) :
      (ds ++ es).dropWhile (fun c => decide (c.toNat ≤ 0x20)) = ds ++ es := by
    obtain ⟨d, rest, rfl⟩ := List.exists_cons_of_ne_nil hds
    have hd : ¬d.toNat ≤ 0x20 := Nat.not_le_of_lt (hVisible d List.mem_cons_self)
    exact List.dropWhile_cons_of_neg (by simpa using hd)
  have hReverse : (front ++ cs).reverse.dropWhile (fun c => decide (c.toNat ≤ 0x20)) =
      cs.reverse.dropWhile (fun c => decide (c.toNat ≤ 0x20)) ++ front.reverse := by
    have hKept := hOuter (List.reverse_ne_nil_iff.2 hSome)
      (fun c hc => hFront c (List.mem_reverse.1 hc)) []
    rw [List.append_nil] at hKept
    rw [List.reverse_append, List.dropWhile_append, hKept]
    split
    · next hNone => rw [List.isEmpty_iff.1 hNone, List.nil_append]
    · rfl
  unfold clean
  dsimp only
  rw [hOuter hSome hFront, hReverse, List.reverse_append, List.reverse_reverse,
    List.filter_append, filter_breaks_eq_self hFront]
  rfl

/-- Only what is not visible is taken away from a text before it is read. -/
theorem clean_eq_self {cs : List Char} (hSome : cs ≠ []) (h : ∀ c ∈ cs, 0x20 < c.toNat) :
    clean cs = cs := by
  have hClean : clean (cs ++ []) = _ := clean_append hSome h
  simpa using hClean

theorem Reference.ofChars_eq {cs : List Char} (hFragment : '#' ∉ cs) (hQuery : '?' ∉ cs) :
    Reference.ofChars cs = ⟨cs, none, none⟩ := by
  simp only [Reference.ofChars, Text.cutFirst_eq_none_iff.2 hFragment,
    Text.cutFirst_eq_none_iff.2 hQuery]

/-- A reference has a body as far as its query or its fragment, and nothing but a body if it has
neither. -/
theorem Reference.ofChars_spec (cs : List Char) :
    (Reference.ofChars cs).body = cs.takeWhile (fun c => decide (c ≠ '?' ∧ c ≠ '#')) ∧
      ((Reference.ofChars cs).query = none ∧ (Reference.ofChars cs).fragment = none →
        '?' ∉ cs ∧ '#' ∉ cs) := by
  have hStop {body rest : List Char} {c : Char} (hQuery : '?' ∉ body) (hFragment : '#' ∉ body)
      (hc : c = '?' ∨ c = '#') :
      body = (body ++ c :: rest).takeWhile (fun c => decide (c ≠ '?' ∧ c ≠ '#')) := by
    have hBody : ∀ d ∈ body, decide (d ≠ '?' ∧ d ≠ '#') = true := fun d hd =>
      decide_eq_true ⟨fun hEq => hQuery (hEq ▸ hd), fun hEq => hFragment (hEq ▸ hd)⟩
    rw [List.takeWhile_append_of_pos hBody, List.takeWhile_cons_of_neg (by simp; tauto),
      List.append_nil]
  unfold Reference.ofChars
  cases hHash : Text.cutFirst '#' cs with
  | none =>
      have hFragment := Text.cutFirst_eq_none_iff.1 hHash
      cases hMark : Text.cutFirst '?' cs with
      | none =>
          have hQuery := Text.cutFirst_eq_none_iff.1 hMark
          simp only [hMark]
          refine ⟨(List.takeWhile_eq_self_iff.2 fun c hc => decide_eq_true ⟨?_, ?_⟩).symm,
            fun _ => ⟨hQuery, hFragment⟩⟩
          · exact fun hEq => hQuery (hEq ▸ hc)
          · exact fun hEq => hFragment (hEq ▸ hc)
      | some parts =>
          obtain ⟨hText, hQuery⟩ := Text.cutFirst_eq_some_iff.1 hMark
          simp only [hMark]
          refine ⟨?_, fun h => by simp at h⟩
          rw [hText] at hFragment ⊢
          exact hStop hQuery (fun hMem => hFragment (List.mem_append_left _ hMem)) (.inl rfl)
  | some parts =>
      obtain ⟨hText, hFragment⟩ := Text.cutFirst_eq_some_iff.1 hHash
      cases hMark : Text.cutFirst '?' parts.1 with
      | none =>
          have hQuery := Text.cutFirst_eq_none_iff.1 hMark
          simp only [hMark]
          refine ⟨?_, fun h => by simp at h⟩
          rw [hText]
          exact hStop hQuery hFragment (.inr rfl)
      | some inner =>
          obtain ⟨hFront, hQuery⟩ := Text.cutFirst_eq_some_iff.1 hMark
          simp only [hMark]
          refine ⟨?_, fun h => by simp at h⟩
          rw [hFront] at hFragment
          rw [hText, hFront, List.append_assoc, List.cons_append]
          exact hStop hQuery (fun hMem => hFragment (List.mem_append_left _ hMem)) (.inl rfl)

theorem cutPort_eq {cs : List Char} (hColon : ':' ∉ cs) (inBrackets : Bool) :
    cutPort inBrackets cs = (cs, none) := by
  induction cs generalizing inBrackets with
  | nil => rfl
  | cons c cs ih =>
      rw [List.mem_cons, not_or] at hColon
      simp [cutPort, Ne.symm hColon.1, ih hColon.2]

/-- Letters, digits and signs are visible if the signs are. -/
theorem visible_of_isAlphanum_or {signs : List Char} {c : Char}
    (hSigns : signs.all fun d => 0x20 < d.toNat ∧ d.toNat < 0x7F)
    (hc : c.isAlphanum || signs.contains c) : 0x20 < c.toNat ∧ c.toNat < 0x7F := by
  rw [Bool.or_eq_true, List.contains_iff_mem] at hc
  rcases hc with hAlphanum | hSign
  · have hBounds := Text.toNat_of_isAlphanum hAlphanum
    omega
  · exact of_decide_eq_true (List.all_eq_true.1 hSigns c hSign)

/-! ## The parts of a URL -/

/-- The characters of which schemes are made. -/
def isSchemeChar (c : Char) : Bool := c.isAlphanum || ['+', '-', '.'].contains c

/-- A scheme as it is written: a letter first, and no letter in upper case. -/
structure IsScheme (scheme : String) : Prop where
  head : ∃ c ∈ scheme.toList.head?, c.isAlpha
  kept : ∀ c ∈ scheme.toList, isSchemeChar c ∧ c.toLower = c

/-- A user that is kept as it is. -/
structure IsUser (cs : List Char) : Prop where
  ne_nil : cs ≠ []
  kept : ∀ c ∈ cs, inUserSet c = false

/-- A host that is kept as it is where hosts are opaque. -/
structure IsOpaqueName (cs : List Char) : Prop where
  ne_nil : cs ≠ []
  kept : ∀ c ∈ cs, isControl c = false ∧ forbiddenInOpaque c = false

/-- What can follow a user up to the end of a URL: a host, and a port if there is one. -/
structure IsHostPort (cs : List Char) : Prop where
  ne_nil : cs ≠ []
  visible : ∀ c ∈ cs, 0x20 < c.toNat
  uncut : ∀ c ∈ cs, c ≠ '/' ∧ c ≠ '?' ∧ c ≠ '#' ∧ c ≠ '@'

variable {scheme : String} {user host : List Char}

theorem IsUser.not_mem (h : IsUser user) {c : Char} (hc : inUserSet c) : c ∉ user := fun hMem => by
  rw [h.kept c hMem] at hc
  cases hc

theorem IsOpaqueName.not_mem (h : IsOpaqueName host) {c : Char} (hc : forbiddenInOpaque c) :
    c ∉ host := fun hMem => by
  rw [(h.kept c hMem).2] at hc
  cases hc

theorem IsScheme.visible (h : IsScheme scheme) {c : Char} (hc : c ∈ scheme.toList) :
    0x20 < c.toNat :=
  (visible_of_isAlphanum_or (by decide) (h.kept c hc).1).1

theorem IsUser.visible (h : IsUser user) {c : Char} (hc : c ∈ user) : 0x20 < c.toNat := by
  have hKept := h.kept c hc
  simp only [inUserSet, inPathSet, inFragmentSet, Bool.or_eq_false_iff] at hKept
  exact visible_of_not_control hKept.1.1.1 fun hSpace => h.not_mem (by decide) (hSpace ▸ hc)

theorem IsOpaqueName.visible (h : IsOpaqueName host) {c : Char} (hc : c ∈ host) :
    0x20 < c.toNat :=
  visible_of_not_control (h.kept c hc).1 fun hSpace => h.not_mem (by decide) (hSpace ▸ hc)

theorem IsOpaqueName.isHostPort (h : IsOpaqueName host) : IsHostPort host where
  ne_nil := h.ne_nil
  visible _ hc := h.visible hc
  uncut c hc := by
    refine ⟨?_, ?_, ?_, ?_⟩ <;> rintro rfl <;> exact h.not_mem (by decide) hc

theorem cutScheme_append (h : IsScheme scheme) (rest : List Char) :
    cutScheme (scheme.toList ++ ':' :: rest) = some (scheme, rest) := by
  have hColon : ':' ∉ scheme.toList := fun hMem => absurd (h.kept _ hMem).1 (by decide)
  have hCut : Text.cutFirst ':' (scheme.toList ++ ':' :: rest) = some (scheme.toList, rest) :=
    Text.cutFirst_eq_some_iff.2 ⟨rfl, hColon⟩
  have hLower : scheme.toList.map Char.toLower = scheme.toList :=
    (List.map_congr_left fun c hc => (h.kept c hc).2).trans (List.map_id _)
  obtain ⟨first, hFirst, hLetter⟩ := h.head
  obtain ⟨cs, hChars⟩ := List.head?_eq_some_iff.1 hFirst
  have hRest : cs.all isSchemeChar :=
    List.all_eq_true.2 fun c hc => (h.kept c (hChars ▸ List.mem_cons_of_mem first hc)).1
  unfold cutScheme
  rw [hCut, hChars]
  dsimp only
  rw [if_pos ⟨hLetter, hRest⟩, ← hChars, hLower, String.ofList_toList]

theorem opaqueHost_eq (h : IsOpaqueName host) :
    opaqueHost host = .ok (.name (String.ofList host)) := by
  have hForbidden : host.any forbiddenInOpaque = false :=
    List.any_eq_false.2 fun c hc => by simp [(h.kept c hc).2]
  unfold opaqueHost
  split
  · next inner => exact absurd List.mem_cons_self (h.not_mem (c := '[') (by decide))
  · rw [hForbidden, percentEncode_eq_self fun c hc => (h.kept c hc).1]
    rfl

theorem readLogin_eq (h : IsUser user) : readLogin user = (String.ofList user, none) := by
  have hColon : Text.cutFirst ':' user = none :=
    Text.cutFirst_eq_none_iff.2 (h.not_mem (by decide))
  simp only [readLogin, hColon, percentEncode_eq_self h.kept]

/-- An authority with a user in a scheme that knows nothing of addresses. -/
theorem readAuthority_login {hostPort : List Char} (hOpaque : isSpecialScheme scheme = false)
    (hUser : IsUser user) (hCut : '@' ∉ hostPort) {port? : Option (List Char)}
    (hPort : cutPort false hostPort = (host, port?)) (hHost : host ≠ []) (pathFollows : Bool) :
    readAuthority scheme (user ++ '@' :: hostPort) pathFollows = (opaqueHost host).bind fun h =>
      (port?.elim (.ok (none, [])) (readPort scheme)).map fun p =>
        ({ user := String.ofList user, host := h, port := p.1 }, p.2) := by
  have hLast : Text.cutLast '@' (user ++ '@' :: hostPort) = some (user, hostPort) :=
    Text.cutLast_eq_some_iff.2 ⟨rfl, hCut⟩
  have hSome : host.isEmpty = false := by simpa using hHost
  cases port? <;>
    simp [readAuthority, hLast, readLogin_eq hUser, hPort, hOpaque, hUser.ne_nil, hSome, bind,
      Except.bind, Except.map, pure, Except.pure]

/-! ## The whole URL -/

/-- The URL with a scheme, a user and a host, and with nothing else. -/
def ofLogin (scheme : String) (user host : List Char) : Url where
  scheme := scheme
  authority := some { user := String.ofList user, host := .name (String.ofList host) }
  path := .segments []

theorem chars_ofLogin (hUser : IsUser user) : (ofLogin scheme user host).chars =
    scheme.toList ++ ':' :: '/' :: '/' :: (user ++ '@' :: host) := by
  have hSome : user.isEmpty = false := by simpa using hUser.ne_nil
  simp [chars, ofLogin, Authority.chars, Host.chars, Path.chars, hSome]

/-- What is read of a URL that ends with its authority. -/
def ofAuthority (scheme : String) (a : Authority × List Char) : Url where
  scheme := scheme
  authority := some a.1
  path := .segments (readPath scheme a.2)

theorem afterSlashes_eq {hostPort : List Char} (hOpaque : isSpecialScheme scheme = false)
    (hUser : IsUser user) (hHost : IsHostPort hostPort) (body : List Char) :
    afterSlashes scheme ⟨body, none, none⟩ (user ++ '@' :: hostPort) =
      (readAuthority scheme (user ++ '@' :: hostPort) false).map (ofAuthority scheme) := by
  have hEnds : ∀ c ∈ user ++ '@' :: hostPort, !isSlash (isSpecialScheme scheme) c := by
    have hSlash : '/' ∉ user ++ '@' :: hostPort := by
      have hNone : '/' ∉ hostPort := fun hMem => (hHost.uncut _ hMem).1 rfl
      simp [hUser.not_mem (c := '/') (by decide), hNone]
    intro c hc
    have hNe : c ≠ '/' := fun hEq => hSlash (hEq ▸ hc)
    simp [isSlash, hOpaque, hNe]
  unfold afterSlashes
  dsimp only
  rw [List.takeWhile_eq_self_iff.2 hEnds, List.dropWhile_eq_nil_iff.2 hEnds]
  simp only [List.isEmpty_nil, Option.isSome_none, Bool.not_true, Bool.or_self, List.append_nil]
  cases readAuthority scheme (user ++ '@' :: hostPort) false <;> rfl

/-- A URL with a user is read as far as its authority if nothing cuts it off and nothing follows. -/
theorem parse_login {hostPort : List Char} (hScheme : IsScheme scheme)
    (hOpaque : isSpecialScheme scheme = false) (hUser : IsUser user)
    (hHost : IsHostPort hostPort) :
    parse (String.ofList (scheme.toList ++ ':' :: '/' :: '/' :: (user ++ '@' :: hostPort))) =
      (readAuthority scheme (user ++ '@' :: hostPort) false).map (ofAuthority scheme) := by
  have hFile : scheme ≠ "file" := fun hEq => by simp [hEq, isSpecialScheme] at hOpaque
  have hClean : clean (scheme.toList ++ ':' :: '/' :: '/' :: (user ++ '@' :: hostPort)) =
      scheme.toList ++ ':' :: '/' :: '/' :: (user ++ '@' :: hostPort) := by
    refine clean_eq_self (by simp) fun c hc => ?_
    simp only [List.mem_append, List.mem_cons] at hc
    rcases hc with hc | rfl | rfl | rfl | hc | rfl | hc
    · exact hScheme.visible hc
    · decide
    · decide
    · decide
    · exact hUser.visible hc
    · decide
    · exact hHost.visible c hc
  have hReference : Reference.ofChars ('/' :: '/' :: (user ++ '@' :: hostPort)) =
      ⟨'/' :: '/' :: (user ++ '@' :: hostPort), none, none⟩ := by
    have hFragment : '#' ∉ hostPort := fun hMem => (hHost.uncut _ hMem).2.2.1 rfl
    have hQuery : '?' ∉ hostPort := fun hMem => (hHost.uncut _ hMem).2.1 rfl
    apply Reference.ofChars_eq
    · simp [hUser.not_mem (c := '#') (by decide), hFragment]
    · simp [hUser.not_mem (c := '?') (by decide), hQuery]
  unfold parse read
  dsimp only
  rw [String.toList_ofList, hClean, cutScheme_append hScheme]
  dsimp only
  unfold readAbsolute
  simp only [hReference, if_neg hFile, hOpaque, Bool.false_eq_true, if_false]
  exact afterSlashes_eq hOpaque hUser hHost _

/-- A URL of a user and a host is read from its own text. -/
theorem parse_text_ofLogin (hScheme : IsScheme scheme) (hOpaque : isSpecialScheme scheme = false)
    (hUser : IsUser user) (hHost : IsOpaqueName host) :
    parse (ofLogin scheme user host).text = .ok (ofLogin scheme user host) := by
  have hPort : cutPort false host = (host, none) := cutPort_eq (hHost.not_mem (by decide)) false
  rw [text, chars_ofLogin hUser, parse_login hScheme hOpaque hUser hHost.isHostPort,
    readAuthority_login hOpaque hUser (hHost.not_mem (by decide)) hPort hHost.ne_nil,
    opaqueHost_eq hHost]
  simp [ofAuthority, ofLogin, readPath, hOpaque, Except.bind, Except.map]

/-! ## Unreserved characters -/

/-- Whether a character is a letter or a digit of ASCII or one of four signs. None of these
separates parts of a URL or is encoded in one. -/
def isUnreserved (c : Char) : Bool := c.isAlphanum || ['-', '.', '_', '~'].contains c

theorem ne_of_isUnreserved {c d : Char} (hc : isUnreserved c) (hd : isUnreserved d = false) :
    c ≠ d := by
  rintro rfl
  exact Bool.eq_false_iff.1 hd hc

/-- There are only so many unreserved characters, so each of them can be looked at. -/
theorem kept_of_isUnreserved {c : Char} (hc : isUnreserved c) :
    inUserSet c = false ∧ isControl c = false ∧ forbiddenInOpaque c = false := by
  have hAll : ∀ n < 0x7F, isUnreserved (Char.ofNat n) → inUserSet (Char.ofNat n) = false ∧
      isControl (Char.ofNat n) = false ∧ forbiddenInOpaque (Char.ofNat n) = false := by
    decide +kernel
  have hOne := hAll c.toNat (visible_of_isAlphanum_or (by decide) hc).2
  rw [Char.ofNat_toNat] at hOne
  exact hOne hc

theorem isOpaqueName_of_isUnreserved (hSome : host ≠ []) (h : ∀ c ∈ host, isUnreserved c) :
    IsOpaqueName host :=
  ⟨hSome, fun c hc => (kept_of_isUnreserved (h c hc)).2⟩

end PackageManager.Url
