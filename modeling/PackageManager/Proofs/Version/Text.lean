import PackageManager.Proofs.Text.Blanks
import PackageManager.Proofs.Text.Parts
import PackageManager.Proofs.Traversal
import PackageManager.Version.Parser

/-!
# The text of a version

A version is read by a reader that knows more than versions: it goes on to pre-releases and build
metadata, and refuses a text that has them only at its end. What it accepts is nevertheless one text
for each version, the one that the version is written with. The reader and the writer meet at the
components, where a number is the same as its digits without a leading zero.

Nothing is missing from the texts of versions either: three components with points between them are
one, whatever the components are.

## Main results

* `number_eq_ok_iff` — what is read as a number.
* `parse_eq_ok_iff` — a version is read from its own text only.
* `chars_injective` — the text of a version says which version it is.
* `exists_eq_chars_iff` — which texts are those of versions.
* `parse_iff_text` — which texts are read as versions, and which are refused.
-/

namespace PackageManager.Version

/-! ## The characters -/

/-- A version is written with digits and points. -/
theorem isDigit_or_eq_of_mem_chars {v : Version} {c : Char} (h : c ∈ v.chars) :
    c.isDigit ∨ c = '.' := by
  simp only [chars, List.mem_append, List.mem_cons] at h
  rcases h with h | rfl | h | rfl | h
  · exact .inl (Text.isDigit_of_mem_digits h)
  · exact .inr rfl
  · exact .inl (Text.isDigit_of_mem_digits h)
  · exact .inr rfl
  · exact .inl (Text.isDigit_of_mem_digits h)

theorem point_not_mem_digits (n : Nat) : '.' ∉ Text.digits n := fun h =>
  absurd (Text.isDigit_of_mem_digits h) (by decide)

/-- The text of a version says which version it is. -/
theorem chars_injective {u v : Version} (hEq : u.chars = v.chars) : u = v := by
  unfold chars at hEq
  obtain ⟨hMajor, hRest⟩ :=
    Text.eq_of_append_cons_eq (point_not_mem_digits _) (point_not_mem_digits _) hEq
  obtain ⟨hMinor, hPatch⟩ :=
    Text.eq_of_append_cons_eq (point_not_mem_digits _) (point_not_mem_digits _) hRest
  cases u
  cases v
  simp only [mk.injEq]
  exact ⟨UInt32.toNat_inj.1 (Text.digits_injective hMajor),
    UInt32.toNat_inj.1 (Text.digits_injective hMinor),
    UInt32.toNat_inj.1 (Text.digits_injective hPatch)⟩

theorem not_mem_chars (v : Version) {c : Char} (hDigit : ¬c.isDigit) (hPoint : c ≠ '.') :
    c ∉ v.chars := fun h => (isDigit_or_eq_of_mem_chars h).elim hDigit hPoint

theorem dash_not_mem_chars (v : Version) : '-' ∉ v.chars :=
  v.not_mem_chars (by decide) (by decide)

/-- A version starts with a digit. -/
theorem exists_chars_eq_cons (v : Version) : ∃ d ds, v.chars = d :: ds ∧ d.isDigit := by
  obtain ⟨d, ds, hDigits⟩ := List.exists_cons_of_ne_nil (Text.digits_ne_nil v.major.toNat)
  refine ⟨d, ds ++ _, by rw [chars, hDigits, List.cons_append], ?_⟩
  exact Text.isDigit_of_mem_digits (hDigits ▸ List.mem_cons_self)

theorem isBlank_eq_false_of_mem_chars {v : Version} {c : Char} (hc : c ∈ v.chars) :
    Text.isBlank c = false := by
  rcases isDigit_or_eq_of_mem_chars hc with hDigit | rfl
  · exact Text.isBlank_eq_false_of_isDigit hDigit
  · decide

theorem trimmed_chars (v : Version) : Text.Trimmed v.chars where
  head _ hc := isBlank_eq_false_of_mem_chars (List.mem_of_mem_head? hc)
  last _ hc := isBlank_eq_false_of_mem_chars (List.mem_of_mem_getLast? hc)

/-! ## Reading -/

theorem number_digits_append {part : Part} {n : Nat} {rest : List Char} (hSmall : n < UInt64.size)
    (hRest : ∀ c ∈ rest.head?, c.isDigit = false) :
    number part (Text.digits n ++ rest) = .ok (n, rest) := by
  obtain ⟨hDigits, hBehind⟩ := Text.span_append (Text.numeral_digits n).digits hRest
  obtain ⟨d, ds, hCons⟩ := List.exists_cons_of_ne_nil (Text.digits_ne_nil n)
  have hLead : ¬(d = '0' ∧ ds ≠ []) := by
    rintro ⟨rfl, hMore⟩
    have hZero := Text.digits_eq_of_head? (n := n) (by rw [hCons]; rfl)
    rw [hCons] at hZero
    exact hMore (List.cons.inj hZero).2
  have hValue : Text.digitsValue (d :: ds) = n := by rw [← hCons, Text.digitsValue_digits]
  unfold number
  rw [hDigits, hBehind, hCons]
  dsimp only
  rw [if_neg hLead, hValue, if_neg (Nat.not_le_of_lt hSmall)]

/-- A number is read up to the first character that is no digit. -/
theorem number_eq_ok_iff {part : Part} {cs rest : List Char} {n : Nat} :
    number part cs = .ok (n, rest) ↔
      cs = Text.digits n ++ rest ∧ n < UInt64.size ∧ ∀ c ∈ rest.head?, c.isDigit = false := by
  constructor
  · intro hRead
    have hSplit : cs.takeWhile Char.isDigit ++ cs.dropWhile Char.isDigit = cs :=
      List.takeWhile_append_dropWhile
    have hRest : ∀ c ∈ (cs.dropWhile Char.isDigit).head?, c.isDigit = false :=
      fun c hc => Text.head?_dropWhile_eq_false hc
    unfold number at hRead
    dsimp only at hRead
    cases hDigits : cs.takeWhile Char.isDigit with
    | nil =>
        rw [hDigits] at hRead
        dsimp only at hRead
        split at hRead <;> cases hRead
    | cons d ds =>
        rw [hDigits] at hRead hSplit
        dsimp only at hRead
        by_cases hLead : d = '0' ∧ ds ≠ []
        · rw [if_pos hLead] at hRead
          cases hRead
        by_cases hLarge : UInt64.size ≤ Text.digitsValue (d :: ds)
        · rw [if_neg hLead, if_pos hLarge] at hRead
          cases hRead
        rw [if_neg hLead, if_neg hLarge] at hRead
        obtain ⟨rfl, rfl⟩ := Prod.mk.inj (Except.ok.inj hRead)
        refine ⟨?_, Nat.lt_of_not_le hLarge, hRest⟩
        rw [Text.digits_digitsValue (List.cons_ne_nil d ds), hSplit]
        · intro c hc
          rw [← hDigits] at hc
          exact List.all_eq_true.1 List.all_takeWhile c hc
        · intro hZero
          have hZero : d = '0' := Option.some.inj hZero
          have hNone : ds = [] := by_contra fun hMore => hLead ⟨hZero, hMore⟩
          rw [hZero, hNone]
  · rintro ⟨rfl, hSmall, hRest⟩
    exact number_digits_append hSmall hRest

theorem afterPoint_eq_ok_iff {part : Part} {cs rest : List Char} :
    afterPoint part cs = .ok rest ↔ cs = '.' :: rest := by
  unfold afterPoint
  split
  · simp
  · next c cs hOther => simpa using fun hPoint _ => hOther hPoint
  · simp

theorem component_eq_ok_iff {n : Nat} {c : UInt32} : component n = .ok c ↔ n = c.toNat := by
  unfold component
  split
  · next hSmall =>
    rw [Except.ok.injEq, ← UInt32.toNat_inj, UInt32.toNat_ofNat', Nat.mod_eq_of_lt hSmall]
  · next hLarge =>
    have hFits : c.toNat < UInt32.size := c.toNat_lt_size
    simp only [reduceCtorEq, false_iff]
    omega

/-- Only the text of a version is read as it. A suffix is read as well, but then refused. -/
theorem eq_chars_of_ofChars {cs : List Char} {v : Version} (hRead : ofChars cs = .ok v) :
    cs = v.chars := by
  unfold ofChars at hRead
  dsimp only at hRead
  split at hRead
  · cases hRead
  obtain ⟨⟨major, behindMajor⟩, hMajor, hRead⟩ := ok_of_bind hRead
  obtain ⟨fromMinor, hFirst, hRead⟩ := ok_of_bind hRead
  obtain ⟨⟨minor, behindMinor⟩, hMinor, hRead⟩ := ok_of_bind hRead
  obtain ⟨fromPatch, hSecond, hRead⟩ := ok_of_bind hRead
  obtain ⟨⟨patch, behindPatch⟩, hPatch, hRead⟩ := ok_of_bind hRead
  obtain ⟨afterPre, -, hRead⟩ := ok_of_bind hRead
  obtain ⟨afterBuild, -, hRead⟩ := ok_of_bind hRead
  dsimp only at hRead
  split at hRead
  · cases hRead
  next hEnd =>
  split at hRead
  · obtain ⟨u, hRefused, -⟩ := ok_of_bind hRead
    cases hRefused
  next hPlain =>
  obtain ⟨hPre, hBuild⟩ : afterPre = none ∧ afterBuild = none := by simpa using hPlain
  obtain ⟨first, hFirstComponent, hRead⟩ := ok_of_bind hRead
  obtain ⟨second, hSecondComponent, hRead⟩ := ok_of_bind hRead
  obtain ⟨third, hThirdComponent, hRead⟩ := ok_of_bind hRead
  obtain rfl := Except.ok.inj hRead
  rw [component_eq_ok_iff] at hFirstComponent hSecondComponent hThirdComponent
  subst hFirstComponent hSecondComponent hThirdComponent hPre hBuild
  have hEnd : behindPatch = [] := hEnd
  have hFirst : behindMajor = '.' :: fromMinor := afterPoint_eq_ok_iff.1 hFirst
  have hSecond : behindMinor = '.' :: fromPatch := afterPoint_eq_ok_iff.1 hSecond
  rw [(number_eq_ok_iff.1 hMajor).1, hFirst, (number_eq_ok_iff.1 hMinor).1, hSecond,
    (number_eq_ok_iff.1 hPatch).1, hEnd, List.append_nil]
  rfl

/-- The text of a version is read as that version. -/
theorem ofChars_chars (v : Version) : ofChars v.chars = .ok v := by
  have hFits (c : UInt32) : c.toNat < UInt64.size := Nat.lt_trans c.toNat_lt_size (by decide)
  have hMajor : number .major v.chars = .ok (v.major.toNat, _) :=
    number_digits_append (hFits _) (by rintro c ⟨⟩; decide)
  have hMinor : number .minor (Text.digits v.minor.toNat ++ '.' :: Text.digits v.patch.toNat) =
      .ok (v.minor.toNat, _) :=
    number_digits_append (hFits _) (by rintro c ⟨⟩; decide)
  have hPatch : number .patch (Text.digits v.patch.toNat) = .ok (v.patch.toNat, []) :=
    number_eq_ok_iff.2 ⟨(List.append_nil _).symm, hFits _, by rintro c ⟨⟩⟩
  have hSome : v.chars.isEmpty = false := by simp [chars]
  have hComponent (c : UInt32) : component c.toNat = .ok c := component_eq_ok_iff.2 rfl
  unfold ofChars
  simp [hSome, hMajor, hMinor, hPatch, hComponent, afterPoint, suffixAfter, bind, Except.bind, pure,
    Except.pure]

theorem parse_eq_ok_iff {s : String} {v : Version} : parse s = .ok v ↔ s.toList = v.chars := by
  unfold parse
  rw [mapError_eq_ok_iff]
  constructor
  · exact eq_chars_of_ofChars
  · intro hText
    rw [hText, ofChars_chars]

/-! ## Which texts are versions -/

/-- How a component is written: as a number that fits, with a zero in front only if it is zero. -/
structure IsComponent (ds : List Char) : Prop where
  ne_nil : ds ≠ []
  isDigit : ∀ c ∈ ds, c.isDigit
  lead : ds.head? = some '0' → ds = ['0']
  small : Text.digitsValue ds < UInt32.size

instance (ds : List Char) : Decidable (IsComponent ds) :=
  decidable_of_iff (ds ≠ [] ∧ ds.all Char.isDigit ∧ (ds.head? = some '0' → ds = ['0']) ∧
      Text.digitsValue ds < UInt32.size)
    ⟨fun ⟨hSome, hDigits, hLead, hSmall⟩ => ⟨hSome, List.all_eq_true.1 hDigits, hLead, hSmall⟩,
      fun h => ⟨h.ne_nil, List.all_eq_true.2 h.isDigit, h.lead, h.small⟩⟩

theorem isComponent_digits (c : UInt32) : IsComponent (Text.digits c.toNat) where
  ne_nil := Text.digits_ne_nil _
  isDigit _ hc := Text.isDigit_of_mem_digits hc
  lead := Text.digits_eq_of_head?
  small := by
    rw [Text.digitsValue_digits]
    exact c.toNat_lt_size

theorem isComponent_iff {ds : List Char} :
    IsComponent ds ↔ ∃ c : UInt32, ds = Text.digits c.toNat := by
  constructor
  · intro h
    refine ⟨UInt32.ofNat (Text.digitsValue ds), ?_⟩
    rw [UInt32.toNat_ofNat', Nat.mod_eq_of_lt h.small]
    exact (Text.digits_digitsValue h.ne_nil h.isDigit h.lead).symm
  · rintro ⟨c, rfl⟩
    exact isComponent_digits c

theorem chars_eq_intercalate (v : Version) : v.chars = ['.'].intercalate
    [Text.digits v.major.toNat, Text.digits v.minor.toNat, Text.digits v.patch.toNat] := by
  simp [chars, List.intercalate_cons_cons]

theorem splitOn_chars (v : Version) : v.chars.splitOn '.' =
    [Text.digits v.major.toNat, Text.digits v.minor.toNat, Text.digits v.patch.toNat] := by
  rw [chars_eq_intercalate]
  refine List.splitOn_intercalate '.' ?_ (List.cons_ne_nil _ _)
  simp [point_not_mem_digits]

/-- The points of a text say where its components are, so any three of them make a version. -/
theorem exists_eq_chars_iff {cs : List Char} : (∃ v : Version, cs = v.chars) ↔
    (cs.splitOn '.').length = 3 ∧ ∀ part ∈ cs.splitOn '.', IsComponent part := by
  constructor
  · rintro ⟨v, rfl⟩
    rw [splitOn_chars]
    simp [isComponent_digits]
  · rintro ⟨hThree, hParts⟩
    obtain ⟨a, b, c, hSplit⟩ := List.length_eq_three.1 hThree
    rw [hSplit] at hParts
    obtain ⟨major, hMajor⟩ := isComponent_iff.1 (hParts a (by simp))
    obtain ⟨minor, hMinor⟩ := isComponent_iff.1 (hParts b (by simp))
    obtain ⟨patch, hPatch⟩ := isComponent_iff.1 (hParts c (by simp))
    refine ⟨⟨major, minor, patch⟩, ?_⟩
    rw [chars_eq_intercalate, ← hMajor, ← hMinor, ← hPatch, ← hSplit, List.intercalate_splitOn]

/-- A refusal names the text that is refused. -/
theorem parse_eq_error_iff {s : String} :
    (∃ flaw, parse s = .error ⟨s, flaw⟩) ↔ ¬∃ v : Version, s.toList = v.chars := by
  simp only [← parse_eq_ok_iff]
  unfold parse
  cases ofChars s.toList with
  | error flaw => simp [Except.mapError]
  | ok v => simp [Except.mapError]

/-- A version is read from its own text and from no other. The texts that are refused are those
which do not have three parts between points and those of which some part is no component: it has no
digit, or something else than digits, or a zero too much in front, or it does not fit. -/
theorem parse_iff_text (s : String) (v : Version) :
    (parse s = .ok v ↔ s = v.text) ∧
      parse v.text = .ok v ∧ (parse s = .ok v → ∀ t, parse t = .ok v → t = s) ∧
      ((∃ flaw, parse s = .error ⟨s, flaw⟩) ↔
        (s.toList.splitOn '.').length ≠ 3 ∨ ∃ part ∈ s.toList.splitOn '.', ¬IsComponent part) := by
  have hIff (s : String) : parse s = .ok v ↔ s = v.text := by
    rw [parse_eq_ok_iff, ← toList_text, String.toList_inj]
  refine ⟨hIff s, (hIff v.text).2 rfl, fun hs t ht => ?_, ?_⟩
  · rw [(hIff t).1 ht, (hIff s).1 hs]
  · rw [parse_eq_error_iff, exists_eq_chars_iff]
    simp only [not_and_or, not_forall, exists_prop, ne_eq]

/-- The greatest number is a component and the next one is not. Neither is a number with a
suffix. -/
theorem parse_iff_text_greatest :
    let v : Version := ⟨4294967295, 0, 10⟩
    parse "4294967295.0.10" = .ok v ∧ (∀ t, parse t = .ok v → t = "4294967295.0.10") ∧
      (∃ flaw, parse "4294967296.0.10" = .error ⟨"4294967296.0.10", flaw⟩) ∧
      ∃ flaw, parse "4294967295.0.10-rc" = .error ⟨"4294967295.0.10-rc", flaw⟩ := by
  intro v
  obtain ⟨hIff, -, hOnly, -⟩ := parse_iff_text "4294967295.0.10" v
  obtain ⟨-, -, -, hLarge⟩ := parse_iff_text "4294967296.0.10" v
  obtain ⟨-, -, -, hSuffix⟩ := parse_iff_text "4294967295.0.10-rc" v
  have hRead : parse "4294967295.0.10" = .ok v := hIff.2 (by decide +kernel)
  exact ⟨hRead, hOnly hRead, hLarge.2 (by decide +kernel), hSuffix.2 (by decide +kernel)⟩

end PackageManager.Version
