import PackageManager.Proofs.Requirement.Meaning
import PackageManager.Proofs.Version.Text

/-!
# How requirements are written

A requirement is read by its first character: a sign, or else a range or a version, which are told
apart by a dash. White space is taken away in three places, and the reader of versions knows dashes
of its own, in front of pre-releases. No text gets into a branch that was not meant for it, because
the text of a version has digits and points only: a sign cannot start it, and the first dash of a
range is the one between its versions.

## Main results

* `spelling_of_ofTrimmed`, `ofTrimmed_of_spelling` — a trimmed text is read as a requirement if and
  only if it is one of its spellings.
* `parse_iff_spelling` — which texts are read as which requirement, and that the text of a
  requirement is one of them.
-/

namespace PackageManager.Requirement

open Text

/-- The ways in which a requirement can be written, apart from white space around it. -/
inductive Spelling : Requirement → List Char → Prop
  | bare (v : Version) : Spelling (.exact v) v.chars
  | exact (v : Version) {b : List Char} (hb : Blanks b) :
      Spelling (.exact v) ('=' :: (b ++ v.chars))
  | tilde (v : Version) {b : List Char} (hb : Blanks b) :
      Spelling (.tilde v) ('~' :: (b ++ v.chars))
  | caret (v : Version) {b : List Char} (hb : Blanks b) :
      Spelling (.caret v) ('^' :: (b ++ v.chars))
  | range (lo hi : Version) {a b : List Char} (ha : Blanks a) (hb : Blanks b) :
      Spelling (.range lo hi) (lo.chars ++ a ++ '-' :: (b ++ hi.chars))

variable {cs : List Char} {v : Version} {r : Requirement}

theorem blankedVersion_eq_ok_iff : blankedVersion cs = .ok v ↔
    ∃ a b, Blanks a ∧ Blanks b ∧ cs = a ++ v.chars ++ b := by
  unfold blankedVersion
  rw [mapError_eq_ok_iff, Version.parse_eq_ok_iff, String.toList_ofList, trim_eq_iff]
  exact and_iff_right v.trimmed_chars

/-- Behind a sign there is a version, with white space in front of it at most. -/
theorem exists_blanks_of_sign {sign : Char} {rest : List Char} (hTrimmed : Trimmed (sign :: rest))
    (hRead : blankedVersion rest = .ok v) : ∃ b, Blanks b ∧ rest = b ++ v.chars := by
  obtain ⟨a, b, ha, hb, rfl⟩ := blankedVersion_eq_ok_iff.1 hRead
  have hEnd : b = [] := hTrimmed.end_eq_nil (t := sign :: (a ++ v.chars)) hb
  exact ⟨a, ha, by rw [hEnd, List.append_nil]⟩

/-- Around a dash there are two versions, with white space between them and the dash at most. -/
theorem exists_blanks_of_dash {before after : List Char} {lo hi : Version}
    (hTrimmed : Trimmed (before ++ '-' :: after)) (hLo : blankedVersion before = .ok lo)
    (hHi : blankedVersion after = .ok hi) :
    ∃ a b, Blanks a ∧ Blanks b ∧ before = lo.chars ++ a ∧ after = b ++ hi.chars := by
  obtain ⟨a, b, ha, hb, rfl⟩ := blankedVersion_eq_ok_iff.1 hLo
  obtain ⟨c, d, hc, hd, rfl⟩ := blankedVersion_eq_ok_iff.1 hHi
  have hFront : a = [] := by
    refine Trimmed.front_eq_nil (t := lo.chars ++ b ++ '-' :: (c ++ hi.chars ++ d)) ?_ ha
    simpa using hTrimmed
  have hEnd : d = [] := by
    refine Trimmed.end_eq_nil (t := a ++ lo.chars ++ b ++ '-' :: (c ++ hi.chars)) ?_ hd
    simpa using hTrimmed
  exact ⟨b, c, hb, hc, by rw [hFront, List.nil_append], by rw [hEnd, List.append_nil]⟩

theorem spelling_of_ofTrimmed (hTrimmed : Trimmed cs) (hRead : ofTrimmed cs = .ok r) :
    r.first ≤ r.declared ∧ Spelling r cs := by
  unfold ofTrimmed at hRead
  split at hRead
  · cases hRead
  · next rest =>
    obtain ⟨v, hVersion, rfl⟩ := ok_of_map hRead
    obtain ⟨b, hb, rfl⟩ := exists_blanks_of_sign hTrimmed hVersion
    exact ⟨Std.le_refl v, .exact v hb⟩
  · next rest =>
    obtain ⟨v, hVersion, rfl⟩ := ok_of_map hRead
    obtain ⟨b, hb, rfl⟩ := exists_blanks_of_sign hTrimmed hVersion
    exact ⟨Std.le_refl v, .tilde v hb⟩
  · next rest =>
    obtain ⟨v, hVersion, rfl⟩ := ok_of_map hRead
    obtain ⟨b, hb, rfl⟩ := exists_blanks_of_sign hTrimmed hVersion
    exact ⟨Std.le_refl v, .caret v hb⟩
  · -- Without a sign only a dash tells a range from a version.
    split at hRead
    · next before after hCut =>
      obtain ⟨rfl, -⟩ := cutFirst_eq_some_iff.1 hCut
      obtain ⟨lo, hLo, hRead⟩ := ok_of_bind hRead
      obtain ⟨hi, hHi, hRead⟩ := ok_of_bind hRead
      obtain ⟨a, b, ha, hb, rfl, rfl⟩ := exists_blanks_of_dash hTrimmed hLo hHi
      split at hRead
      · cases hRead
      · next hOrder =>
        cases hRead
        exact ⟨Std.not_lt.1 hOrder, .range lo hi ha hb⟩
    · obtain ⟨v, hVersion, rfl⟩ := ok_of_map hRead
      rw [mapError_eq_ok_iff, Version.parse_eq_ok_iff, String.toList_ofList] at hVersion
      rw [hVersion]
      exact ⟨Std.le_refl v, .bare v⟩

/-- A text that starts with a digit is a range if it has a dash, and else a version. -/
theorem ofTrimmed_of_isDigit {d : Char} {ds : List Char} (hd : d.isDigit) : ofTrimmed (d :: ds) =
    match cutFirst '-' (d :: ds) with
    | some (lo, hi) => do
      let lo ← blankedVersion lo
      let hi ← blankedVersion hi
      if hi < lo then .error (.inverted (String.ofList (d :: ds))) else .ok (.range lo hi)
    | none => ((Version.parse (String.ofList (d :: ds))).mapError .version).map .exact := by
  have hNot {sign : Char} {rest : List Char} (hSign : sign.isDigit = false) :
      d :: ds ≠ sign :: rest := by
    intro hSame
    rw [(List.cons.inj hSame).1, hSign] at hd
    cases hd
  unfold ofTrimmed
  split
  · next hEmpty => exact absurd hEmpty (List.cons_ne_nil d ds)
  · next hSign => exact absurd hSign (hNot (by decide))
  · next hSign => exact absurd hSign (hNot (by decide))
  · next hSign => exact absurd hSign (hNot (by decide))
  · rfl

theorem ofTrimmed_of_spelling (hOrder : r.first ≤ r.declared) (hSpelling : Spelling r cs) :
    ofTrimmed cs = .ok r := by
  have hSign {b : List Char} (hb : Blanks b) (v : Version) :
      blankedVersion (b ++ v.chars) = .ok v :=
    blankedVersion_eq_ok_iff.2 ⟨b, [], hb, blanks_nil, by simp⟩
  cases hSpelling with
  | exact v hb => rw [ofTrimmed, hSign hb]; rfl
  | tilde v hb => rw [ofTrimmed, hSign hb]; rfl
  | caret v hb => rw [ofTrimmed, hSign hb]; rfl
  | bare v =>
      have hCut : cutFirst '-' v.chars = none := cutFirst_eq_none_iff.2 v.dash_not_mem_chars
      have hVersion : Version.parse (String.ofList v.chars) = .ok v :=
        Version.parse_eq_ok_iff.2 String.toList_ofList
      obtain ⟨d, ds, hChars, hd⟩ := v.exists_chars_eq_cons
      rw [hChars] at hCut hVersion ⊢
      rw [ofTrimmed_of_isDigit hd, hCut, hVersion]
      rfl
  | @range lo hi a b ha hb =>
      have hNone : '-' ∉ lo.chars ++ a := by
        rw [List.mem_append, not_or]
        exact ⟨lo.dash_not_mem_chars, fun h => absurd (ha _ h) (by decide)⟩
      have hCut : cutFirst '-' (lo.chars ++ a ++ '-' :: (b ++ hi.chars)) =
          some (lo.chars ++ a, b ++ hi.chars) := cutFirst_eq_some_iff.2 ⟨rfl, hNone⟩
      have hLo : blankedVersion (lo.chars ++ a) = .ok lo :=
        blankedVersion_eq_ok_iff.2 ⟨[], a, blanks_nil, ha, by simp⟩
      obtain ⟨d, ds, hChars, hd⟩ := lo.exists_chars_eq_cons
      have hHead : lo.chars ++ a ++ '-' :: (b ++ hi.chars) =
          d :: (ds ++ a ++ '-' :: (b ++ hi.chars)) := by simp [hChars]
      have hNotInverted : ¬hi < lo := Std.not_lt.2 hOrder
      rw [hHead] at hCut ⊢
      rw [ofTrimmed_of_isDigit hd, hCut]
      simp [hLo, hSign hb, hNotInverted, bind, Except.bind]

/-- The text of a requirement is one of its spellings. -/
theorem spelling_text (r : Requirement) : Spelling r r.text.toList := by
  have hNone : Blanks [] := blanks_nil
  cases r with
  | exact v => simpa [text] using Spelling.exact v hNone
  | tilde v => simpa [text] using Spelling.tilde v hNone
  | caret v => simpa [text] using Spelling.caret v hNone
  | range lo hi => simpa [text] using Spelling.range lo hi hNone hNone

/-- A text that ends with a version is trimmed if it does not start with white space. -/
theorem trimmed_append_chars (front : List Char)
    (hHead : ∀ c ∈ (front ++ v.chars).head?, isBlank c = false) : Trimmed (front ++ v.chars) where
  head := hHead
  last c hc := by
    obtain ⟨d, ds, hChars, -⟩ := v.exists_chars_eq_cons
    rw [List.getLast?_append_of_ne_nil _ (by simp [hChars])] at hc
    exact v.trimmed_chars.last c hc

/-- There is no white space around what is written. -/
theorem Spelling.trimmed (h : Spelling r cs) : Trimmed cs := by
  cases h with
  | bare v => exact v.trimmed_chars
  | exact v hb => exact trimmed_append_chars ('=' :: _) (by rintro c ⟨⟩; decide)
  | tilde v hb => exact trimmed_append_chars ('~' :: _) (by rintro c ⟨⟩; decide)
  | caret v hb => exact trimmed_append_chars ('^' :: _) (by rintro c ⟨⟩; decide)
  | range lo hi ha hb =>
      rw [← List.cons_append, ← List.append_assoc]
      refine trimmed_append_chars _ fun c hc => ?_
      obtain ⟨d, ds, hChars, -⟩ := lo.exists_chars_eq_cons
      refine lo.trimmed_chars.head c ?_
      simpa [hChars] using hc

/-- A text is read as a requirement if and only if the requirement admits the version that it
declares and the text, without the white space around it, is one of its spellings. In particular,
what was read once is read again from its own text. -/
theorem parse_iff_spelling (s : String) (r : Requirement) :
    (parse s = .ok r ↔
      (r.first ≤ r.declared ∧ r.satisfiedBy r.declared) ∧ Spelling r (trim s.toList)) ∧
    (parse s = .ok r → parse r.text = .ok r) := by
  have hIff (s : String) : parse s = .ok r ↔
      (r.first ≤ r.declared ∧ r.satisfiedBy r.declared) ∧ Spelling r (trim s.toList) := by
    rw [parse_eq_ok_iff]
    constructor
    · rintro ⟨hRead, hAdmits⟩
      obtain ⟨hOrder, hSpelling⟩ := spelling_of_ofTrimmed (trimmed_trim _) hRead
      exact ⟨⟨hOrder, hAdmits⟩, hSpelling⟩
    · rintro ⟨⟨hOrder, hAdmits⟩, hSpelling⟩
      exact ⟨ofTrimmed_of_spelling hOrder hSpelling, hAdmits⟩
  refine ⟨hIff s, fun hParse => ?_⟩
  rw [hIff, (spelling_text r).trimmed.trim_eq]
  exact ⟨((hIff s).1 hParse).1, spelling_text r⟩

/-- Other white space than the space does not matter either, at the ends or around the dash. -/
theorem parse_range_among_blanks :
    let s := "\u00a01.2.3\t-\u2003 2.0.0\u3000"
    let r : Requirement := .range ⟨1, 2, 3⟩ ⟨2, 0, 0⟩
    parse s = .ok r ∧ r.text = "1.2.3-2.0.0" ∧ parse r.text = .ok r := by
  intro s r
  obtain ⟨hIff, hAgain⟩ := parse_iff_spelling s r
  have hBlanks : Blanks ['\t'] ∧ Blanks ['\u2003', ' '] := by decide
  have hTrimmed : trim s.toList = Version.chars ⟨1, 2, 3⟩ ++ ['\t'] ++
      '-' :: (['\u2003', ' '] ++ Version.chars ⟨2, 0, 0⟩) := by decide +kernel
  have hSpelling : Spelling r (trim s.toList) := by
    rw [hTrimmed]
    exact .range _ _ hBlanks.1 hBlanks.2
  have hParse : parse s = .ok r := hIff.2 ⟨by decide, hSpelling⟩
  exact ⟨hParse, by decide, hAgain hParse⟩

end PackageManager.Requirement
