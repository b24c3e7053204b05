import PackageManager.Proofs.Timestamp

/-!
# Timestamps that are written are read again

A timestamp is written in universal time, with all digits of its date and its time. That this text
spells the timestamp is a matter of its parts: each number has as many digits as its place, with
zeros in front, and the calendar finds the day of a moment. A timestamp that was read from a text
can always be written like this, whatever that text looked like.

## Main results

* `spells_text` — the text of a timestamp spells it.
* `parse?_text` — so it is read again, and so is what was read from any other text.
-/

namespace PackageManager.Timestamp

open Text

/-! ## Numbers with leading zeros -/

theorem digitsValue_padded (width n : Nat) : digitsValue (padded width n) = n := by
  have hZeros (k : Nat) : digitsValue (List.replicate k '0') = 0 := by
    unfold digitsValue
    rw [Nat.ofDigitChars_replicate_zero, Nat.mul_zero]
  rw [padded, digitsValue_append, hZeros, Nat.mul_zero, Nat.zero_add, digitsValue_digits]

theorem numeral_padded (width n : Nat) : Numeral (padded width n) where
  ne_nil := List.append_ne_nil_of_right_ne_nil _ (digits_ne_nil n)
  digits c hc := by
    rcases List.mem_append.1 hc with hZero | hDigit
    · rw [(List.mem_replicate.1 hZero).2]
      decide
    · exact isDigit_of_mem_digits hDigit

theorem length_padded {width n : Nat} (hPos : 0 < width) (hn : n < 10 ^ width) :
    (padded width n).length = width := by
  have hShort : (digits n).length ≤ width := (Nat.length_toDigits_le_iff (by decide) hPos).2 hn
  rw [padded, List.length_append, List.length_replicate, Nat.sub_add_cancel hShort]

theorem numberSpelling_padded {width n : Nat} (hPos : 0 < width) (hn : n < 10 ^ width) :
    NumberSpelling width n (padded width n) := by
  have hWidth : (padded width n).length ≤ width := (length_padded hPos hn).le
  have hSpelling := NumberSpelling.intro blanks_nil (numeral_padded width n) hWidth
  rwa [digitsValue_padded] at hSpelling

theorem yearSpelling_yearText (year : Int) : YearSpelling year (yearText year) := by
  have hValue := digitsValue_padded 4 year.natAbs
  have hDigits := numeral_padded 4 year.natAbs
  unfold yearText
  split
  · next hPlain =>
    have hSmall : year.toNat < 10 ^ 4 := by omega
    have hYear := YearSpelling.plain (numberSpelling_padded (by decide) hSmall)
    rwa [Int.toNat_of_nonneg hPlain.1] at hYear
  · split
    · next hNegative =>
      have hYear := YearSpelling.minus blanks_nil hDigits
      rw [hValue] at hYear
      rwa [show -(year.natAbs : Int) = year by omega] at hYear
    · next hPositive =>
      have hYear := YearSpelling.plus blanks_nil hDigits
      rw [hValue] at hYear
      rwa [show (year.natAbs : Int) = year by omega] at hYear

/-- As many digits as there are in a fraction, and as many zeros as there could be more. -/
theorem fractionSpelling_point (width : Nat) {n : Nat} (hWidth : 0 < width ∧ width ≤ 9)
    (hn : n < 10 ^ width) : FractionSpelling (n * 10 ^ (9 - width)) ('.' :: padded width n) := by
  have hPow : 10 ^ 9 = 10 ^ (9 - width) * 10 ^ width := by
    rw [← Nat.pow_add, Nat.sub_add_cancel hWidth.2]
  have hSpelling := FractionSpelling.point (numeral_padded width n)
  rwa [digitsValue_padded, length_padded hWidth.1 hn, hPow, Nat.mul_right_comm,
    Nat.mul_div_cancel _ (Nat.pow_pos (by decide)), Nat.mul_comm] at hSpelling

theorem fractionSpelling_fractionText {nanos : Nat} (hNanos : nanos < 10 ^ 9) :
    FractionSpelling nanos (fractionText nanos) := by
  unfold fractionText
  split
  · next hZero =>
    rw [hZero]
    exact .none
  split
  · next hMilli =>
    have hPoint := fractionSpelling_point 3 (n := nanos / 1000000) (by decide) (by omega)
    rwa [show nanos / 1000000 * 10 ^ (9 - 3) = nanos by omega] at hPoint
  split
  · next hMicro =>
    have hPoint := fractionSpelling_point 6 (n := nanos / 1000) (by decide) (by omega)
    rwa [show nanos / 1000 * 10 ^ (9 - 6) = nanos by omega] at hPoint
  · have hPoint := fractionSpelling_point 9 (by decide) hNanos
    rwa [Nat.sub_self, Nat.pow_zero, Nat.mul_one] at hPoint

/-! ## The whole text -/

/-- A moment of which the nanoseconds are those of a second, or of the leap second behind it if that
is the last one of a minute. -/
def Regular (t : Timestamp) : Prop :=
  t.nanos < 10 ^ 9 ∨ t.nanos < 2 * 10 ^ 9 ∧ t.seconds % 60 = 59

variable {t : Timestamp}

/-- The last second of a minute has the number 59, and the leap second behind it 60. -/
theorem second_universal (hRegular : Regular t) :
    (t.nanos < 10 ^ 9 ∧ t.universal.second = (t.seconds % 86400).toNat % 60 ∧
      t.universal.nanos = t.nanos) ∨
    (t.universal.second = 60 ∧ (t.seconds % 86400).toNat % 60 = 59 ∧
      t.universal.nanos + 10 ^ 9 = t.nanos ∧ t.universal.nanos < 10 ^ 9) := by
  by_cases hLeap : 1000000000 ≤ t.nanos
  · have hEnd : t.nanos < 2 * 10 ^ 9 ∧ t.seconds % 60 = 59 :=
      hRegular.resolve_left (Nat.not_lt.2 hLeap)
    simp only [universal, if_pos hLeap]
    omega
  · simp only [universal, if_neg hLeap]
    exact .inl ⟨Nat.lt_of_not_le hLeap, rfl, trivial⟩

theorem denotes_universal (hRegular : Regular t) (hRepresentable : Representable t.seconds) :
    Denotes t.universal t := by
  have hSecond := second_universal hRegular
  have hHour : t.universal.hour = (t.seconds % 86400).toNat / 3600 := rfl
  have hMinute : t.universal.minute = (t.seconds % 86400).toNat / 60 % 60 := rfl
  have hAhead : t.universal.ahead = 0 := rfl
  refine ⟨by omega, ⟨_, Calendar.numbered_dateOfDay (t.seconds / 86400), ?_⟩, ?_, ?_⟩
  · rw [hAhead, hHour, hMinute]
    split <;> omega
  · split <;> omega
  · rw [hAhead, Int.add_zero]
    exact ⟨hRepresentable, hRepresentable⟩

/-- Three numbers are spelled without white space, where the first one is. -/
theorem tripleSpelling_padded {α : Type} {form : α → List Char → Prop} {a : α} {first : List Char}
    (hFirst : form a first) (mark : Char) {m n : Nat} (hm : m < 10 ^ 2) (hn : n < 10 ^ 2) :
    TripleSpelling form mark (a, m, n)
      (first ++ (mark :: (padded 2 m ++ (mark :: padded 2 n)))) :=
  .intro hFirst blanks_nil (numberSpelling_padded (by decide) hm) blanks_nil
    (numberSpelling_padded (by decide) hn)

theorem zoneSpelling_utc : ZoneSpelling 0 ['+', '0', '0', ':', '0', '0'] := by
  have hAll : ['0', '0'].all Char.isDigit := by decide
  have hZeros : ['0', '0'].length = 2 ∧ ∀ c ∈ ['0', '0'], c.isDigit :=
    ⟨rfl, List.all_eq_true.1 hAll⟩
  have hColon : ∀ c ∈ [':'], c = ':' ∨ isBlank c := fun c hc => .inl (List.mem_singleton.1 hc)
  exact .ahead (.intro hZeros hColon hZeros (by decide))

theorem spelling_universal (hRegular : Regular t) : Spelling t.universal t.text.toList := by
  have hSecond := second_universal hRegular
  have hHour : t.universal.hour = (t.seconds % 86400).toNat / 3600 := rfl
  have hMinute : t.universal.minute = (t.seconds % 86400).toNat / 60 % 60 := rfl
  have hNumbered : Calendar.Numbered t.universal.date (t.seconds / 86400) :=
    Calendar.numbered_dateOfDay (t.seconds / 86400)
  obtain ⟨⟨⟨-, hMonth⟩, -, hDay⟩, -⟩ := Calendar.numbered_iff.1 hNumbered
  have hLongest := hDay.trans (Calendar.monthLength_le _ _).1
  have hDate := tripleSpelling_padded (yearSpelling_yearText t.universal.date.year) '-'
    (Nat.lt_of_le_of_lt hMonth (by decide)) (Nat.lt_of_le_of_lt hLongest (by decide))
  have hHours : NumberSpelling 2 t.universal.hour (padded 2 t.universal.hour) :=
    numberSpelling_padded (by decide) (by omega)
  have hClock := tripleSpelling_padded hHours ':' (m := t.universal.minute)
    (n := t.universal.second) (by omega) (by omega)
  have hFraction : FractionSpelling t.universal.nanos (fractionText t.universal.nanos) :=
    fractionSpelling_fractionText (by omega)
  have hMark : 'T' ∈ ['T', 't', ' '] := by decide
  have hText := Spelling.intro hDate hMark hClock hFraction blanks_nil zoneSpelling_utc blanks_nil
  simpa [text] using hText

/-- The text of a timestamp spells it. -/
theorem spells_text (hRegular : Regular t) (hRepresentable : Representable t.seconds) :
    Spells t.text t :=
  ⟨t.universal, spelling_universal hRegular, denotes_universal hRegular hRepresentable⟩

theorem FractionSpelling.lt {n : Nat} {cs : List Char} (hFraction : FractionSpelling n cs) :
    n < 10 ^ 9 := by
  cases hFraction with
  | none => decide
  | @point ds hds =>
      have hValue := digitsValue_lt hds.digits
      refine Nat.div_lt_of_lt_mul ?_
      rw [Nat.mul_comm (10 ^ ds.length)]
      exact Nat.mul_lt_mul_of_pos_left hValue (by decide)

/-- Clocks differ by whole minutes. -/
theorem ZoneSpelling.mod {n : Int} {cs : List Char} (hZone : ZoneSpelling n cs) : n % 60 = 0 := by
  have hDistance {n : Int} {cs : List Char} (h : DistanceSpelling n cs) : n % 60 = 0 := by
    cases h
    omega
  cases hZone with
  | utc hName => rfl
  | zulu hName => rfl
  | ahead h => exact hDistance h
  | behind hSign h =>
      have hWhole := hDistance h
      omega

/-- What any text spells is a moment like this. -/
theorem Spells.regular {s : String} (hSpells : Spells s t) :
    Regular t ∧ Representable t.seconds := by
  obtain ⟨u, hSpelling, hTime, ⟨n, -, hSeconds⟩, hNanos, hRepresentable⟩ := hSpells
  generalize s.toList = cs at hSpelling
  obtain ⟨-, -, -, hFraction, -, hZone, -⟩ := hSpelling
  have hSmall := hFraction.lt
  have hWhole := hZone.mod
  refine ⟨?_, hRepresentable.2⟩
  unfold Regular
  split at hSeconds
  · next hLeap =>
    rw [if_pos hLeap] at hNanos
    omega
  · next hNone =>
    rw [if_neg hNone] at hNanos
    omega

/-- A timestamp that has been read once, from whatever text, is read again from its own text. -/
theorem parse?_text {s : String} (hRead : parse? s = some t) : parse? t.text = some t := by
  obtain ⟨hRegular, hRepresentable⟩ := (parse?_eq_some_iff.1 hRead).regular
  exact parse?_eq_some_iff.2 (spells_text hRegular hRepresentable)

end PackageManager.Timestamp
