import PackageManager.Calendar
import Mathlib.Tactic.IntervalCases

/-!
# The calendar counts days

The number of a day is computed from its year, its month and its day by a formula, in which years
begin in March and leap years show up as quotients. What the formula has to come to is said by
counting: the first day of 1970 has the number zero, and from any day to the next one the number
grows by one. Between two months and between two years this is where the lengths of months and the
rule for leap years come in.

Every day can be counted to. Days of one month are connected by counting, so are the first days of
the months of a year, and so are the first days of the years.

The way back, from a number to its day, takes periods of four hundred years off first, all of which
have the same number of days. In what is left, a year in March is found by a division that has to
know which years before it had one day more.

## Main results

* `number_next` — the number of the next day.
* `numbered_iff` — a day is counted with a number iff the calendar has it and the formula gives that
  number.
* `numbered_dateOfDay` — each number is that of a day, and the day is found.
-/

namespace PackageManager.Calendar

/-- The next day. -/
def Date.next (d : Date) : Date :=
  if d.day < monthLength d.year d.month then { d with day := d.day + 1 }
  else if d.month < 12 then { d with month := d.month + 1, day := 1 }
  else ⟨d.year + 1, 1, 1⟩

/-- Days are counted forwards and backwards, beginning with the first day of 1970. -/
inductive Numbered : Date → Int → Prop
  | start : Numbered ⟨1970, 1, 1⟩ 0
  | next {d : Date} {n : Int} (h : Numbered d n) : Numbered d.next (n + 1)
  | previous {d : Date} {n : Int} (hValid : d.Valid) (h : Numbered d.next (n + 1)) : Numbered d n

/-! ## The next day -/

variable {year : Int} {month : Nat} {d : Date} {n : Int}

theorem number_next_day (year : Int) (month day : Nat) :
    Date.number ⟨year, month, day + 1⟩ = Date.number ⟨year, month, day⟩ + 1 := by
  simp only [Date.number]
  omega

/-- The rule for leap years is about the month before March. -/
theorem number_march (year : Int) :
    Date.number ⟨year, 3, 1⟩ = Date.number ⟨year, 2, monthLength year 2⟩ + 1 := by
  by_cases hLeap : year % 4 = 0 ∧ (year % 100 ≠ 0 ∨ year % 400 = 0)
  · have hDays : monthLength year 2 = 29 := by rw [monthLength, if_pos rfl, if_pos hLeap]
    simp [Date.number, hDays]
    omega
  · have hDays : monthLength year 2 = 28 := by rw [monthLength, if_pos rfl, if_neg hLeap]
    simp [Date.number, hDays]
    omega

/-- A month is as long as the calendar says, so that the next one follows at once. -/
theorem number_next_month (year : Int) (hFirst : 1 ≤ month) (hLast : month < 12) :
    Date.number ⟨year, month + 1, 1⟩ =
      Date.number ⟨year, month, monthLength year month⟩ + 1 := by
  by_cases hMarch : month = 2
  · rw [hMarch]
    exact number_march year
  · have hDays : monthLength year month = if month ∈ [4, 6, 9, 11] then 30 else 31 :=
      if_neg hMarch
    rw [hDays, Date.number, Date.number]
    interval_cases month <;> simp at hMarch ⊢ <;> omega

theorem number_next_year (year : Int) : Date.number ⟨year + 1, 1, 1⟩ =
    Date.number ⟨year, 12, monthLength year 12⟩ + 1 := by
  simp [Date.number, monthLength]
  omega

theorem one_le_monthLength (year : Int) (month : Nat) : 1 ≤ monthLength year month := by
  unfold monthLength
  repeat' split
  all_goals decide

theorem Date.Valid.next (hValid : d.Valid) : d.next.Valid := by
  obtain ⟨⟨hFirst, hLast⟩, hDay⟩ := hValid
  have hOne (year : Int) (month : Nat) : 1 ≤ 1 ∧ 1 ≤ monthLength year month :=
    ⟨le_refl 1, one_le_monthLength year month⟩
  unfold Date.next
  split
  · next hInside => exact ⟨⟨hFirst, hLast⟩, Nat.le_add_left 1 d.day, hInside⟩
  · split
    · next hMonth => exact ⟨⟨Nat.le_add_left 1 d.month, hMonth⟩, hOne _ _⟩
    · exact ⟨⟨le_refl 1, Nat.one_le_ofNat⟩, hOne _ _⟩

theorem number_next (hValid : d.Valid) : d.next.number = d.number + 1 := by
  obtain ⟨⟨hFirst, hLast⟩, -, hDay⟩ := hValid
  unfold Date.next
  split
  · exact number_next_day d.year d.month d.day
  · next hEnd =>
    have hDays : d.day = monthLength d.year d.month := Nat.le_antisymm hDay (Nat.not_lt.1 hEnd)
    split
    · next hMonth =>
      have hNext := number_next_month d.year hFirst hMonth
      rwa [← hDays] at hNext
    · next hYear =>
      have hMonths : d.month = 12 := Nat.le_antisymm hLast (Nat.not_lt.1 hYear)
      have hNext := number_next_year d.year
      rwa [← hMonths, ← hDays] at hNext

/-! ## Counting -/

theorem Numbered.spec (h : Numbered d n) : d.Valid ∧ d.number = n := by
  induction h with
  | start => exact ⟨⟨by decide, by decide⟩, by decide⟩
  | next h ih => exact ⟨ih.1.next, by rw [number_next ih.1, ih.2]⟩
  | previous hValid h ih =>
      have hNumber := ih.2
      rw [number_next hValid] at hNumber
      exact ⟨hValid, by omega⟩

/-- A day is counted with the number that the formula gives. -/
def Counted (d : Date) : Prop := Numbered d d.number

theorem counted_next_iff (hValid : d.Valid) : Counted d.next ↔ Counted d := by
  unfold Counted
  rw [number_next hValid]
  exact ⟨.previous hValid, .next⟩

theorem counted_day_iff (hMonth : 1 ≤ month ∧ month ≤ 12) {day : Nat} (hOne : 1 ≤ day)
    (hDay : day ≤ monthLength year month) :
    Counted ⟨year, month, day⟩ ↔ Counted ⟨year, month, 1⟩ := by
  induction day, hOne using Nat.le_induction with
  | base => exact Iff.rfl
  | succ day hOne ih =>
      have hValid : Date.Valid ⟨year, month, day⟩ := ⟨hMonth, hOne, Nat.le_of_lt hDay⟩
      have hNext : Date.next ⟨year, month, day⟩ = ⟨year, month, day + 1⟩ := if_pos hDay
      rw [← hNext, counted_next_iff hValid]
      exact ih (Nat.le_of_lt hDay)

/-- From the first day of a month the last one is counted to, and from there the next month. -/
theorem counted_next_month_iff (hMonth : 1 ≤ month ∧ month ≤ 12) {d : Date}
    (hNext : Date.next ⟨year, month, monthLength year month⟩ = d) :
    Counted d ↔ Counted ⟨year, month, 1⟩ := by
  have hLength := one_le_monthLength year month
  rw [← hNext, counted_next_iff ⟨hMonth, hLength, le_refl _⟩]
  exact counted_day_iff hMonth hLength (le_refl _)

theorem counted_month_iff (hOne : 1 ≤ month) (hMonth : month ≤ 12) :
    Counted ⟨year, month, 1⟩ ↔ Counted ⟨year, 1, 1⟩ := by
  induction month, hOne using Nat.le_induction with
  | base => exact Iff.rfl
  | succ month hOne ih =>
      have hRange : 1 ≤ month ∧ month ≤ 12 := ⟨hOne, Nat.le_of_lt hMonth⟩
      have hNext : Date.next ⟨year, month, monthLength year month⟩ = ⟨year, month + 1, 1⟩ := by
        simp [Date.next, Nat.lt_of_succ_le hMonth]
      rw [counted_next_month_iff hRange hNext]
      exact ih hRange.2

theorem counted_next_year_iff (year : Int) : Counted ⟨year + 1, 1, 1⟩ ↔ Counted ⟨year, 1, 1⟩ := by
  have hNext : Date.next ⟨year, 12, monthLength year 12⟩ = ⟨year + 1, 1, 1⟩ := by
    simp [Date.next]
  rw [counted_next_month_iff (by decide) hNext]
  exact counted_month_iff (by decide) (by decide)

theorem counted_first_day (year : Int) : Counted ⟨year, 1, 1⟩ := by
  refine Int.inductionOn' year 1970 .start (fun k _ ih => ?_) (fun k _ ih => ?_)
  · exact (counted_next_year_iff k).2 ih
  · refine (counted_next_year_iff (k - 1)).1 ?_
    rwa [Int.sub_add_cancel]

theorem counted_of_valid (hValid : d.Valid) : Counted d := by
  obtain ⟨hMonth, hOne, hDay⟩ := hValid
  have hFirst : Counted ⟨d.year, d.month, 1⟩ :=
    (counted_month_iff hMonth.1 hMonth.2).2 (counted_first_day d.year)
  exact (counted_day_iff hMonth hOne hDay).2 hFirst

/-- Counting comes to the formula: each day of the calendar has exactly one number. -/
theorem numbered_iff : Numbered d n ↔ d.Valid ∧ d.number = n := by
  constructor
  · exact Numbered.spec
  · rintro ⟨hValid, rfl⟩
    exact counted_of_valid hValid

/-! ## The day with a number -/

/-- Every day has one before it. -/
theorem exists_next_eq (hValid : d.Valid) : ∃ p : Date, p.Valid ∧ p.next = d := by
  obtain ⟨year, month, day⟩ := d
  have hMonth : 1 ≤ month ∧ month ≤ 12 := hValid.1
  have hDay : 1 ≤ day ∧ day ≤ monthLength year month := hValid.2
  by_cases hInside : 1 < day
  · have hBefore : 1 ≤ day - 1 ∧ day - 1 < monthLength year month := by omega
    refine ⟨⟨year, month, day - 1⟩, ⟨hMonth, hBefore.1, Nat.le_of_lt hBefore.2⟩, ?_⟩
    rw [Date.next, if_pos hBefore.2, Nat.sub_add_cancel hDay.1]
  obtain rfl : day = 1 := by omega
  by_cases hLater : 1 < month
  · have hBefore : 1 ≤ month - 1 ∧ month - 1 < 12 := by omega
    refine ⟨⟨year, month - 1, monthLength year (month - 1)⟩,
      ⟨⟨hBefore.1, Nat.le_of_lt hBefore.2⟩, one_le_monthLength _ _, le_refl _⟩, ?_⟩
    rw [Date.next, if_neg (Nat.lt_irrefl _), if_pos hBefore.2, Nat.sub_add_cancel hMonth.1]
  · obtain rfl : month = 1 := by omega
    refine ⟨⟨year - 1, 12, monthLength (year - 1) 12⟩,
      ⟨⟨Nat.one_le_ofNat, le_refl 12⟩, one_le_monthLength (year - 1) 12, le_refl _⟩, ?_⟩
    rw [Date.next, if_neg (Nat.lt_irrefl _), if_neg (Nat.lt_irrefl 12), Int.sub_add_cancel]

theorem exists_number_eq (n : Int) : ∃ d : Date, d.Valid ∧ d.number = n := by
  induction n using Int.induction_on with
  | zero => exact ⟨⟨1970, 1, 1⟩, by decide, by decide⟩
  | succ n ih =>
      obtain ⟨d, hValid, hNumber⟩ := ih
      exact ⟨d.next, hValid.next, by rw [number_next hValid, hNumber]⟩
  | pred n ih =>
      obtain ⟨d, hValid, hNumber⟩ := ih
      obtain ⟨p, hBefore, rfl⟩ := exists_next_eq hValid
      rw [number_next hBefore] at hNumber
      exact ⟨p, hBefore, by omega⟩

/-- A year is found from a day of its period, where `a` is its place among four years, `b` that of
the four years in their century, and `c` that of the century. -/
theorem year_of_day {a b c dayOfYear day : Nat} (ha : a < 4) (hb : b < 25) (hc : c < 4)
    (hYear : dayOfYear ≤ 365) (hLeap : dayOfYear = 365 → a = 3 ∧ (b ≠ 24 ∨ c = 3))
    (hDay : day = 36524 * c + 1461 * b + 365 * a + dayOfYear) : day < 146097 ∧
      (day - day / 1460 + day / 36524 - day / 146096) / 365 = 100 * c + 4 * b + a := by
  have hCentury : day / 36524 = c + day / 146096 := by interval_cases c <;> omega
  have hLast : day / 146096 ≤ 1 := by omega
  obtain ⟨extra, hExtra⟩ : ∃ e, e = (24 * c + b + 365 * a + dayOfYear) / 1460 := ⟨_, rfl⟩
  have hFour : day / 1460 = 25 * c + b + extra := by omega
  -- one quarter of the years so far had a day more, and perhaps so has this one on its last day
  have hBegin : dayOfYear = 0 → extra = 0 := by omega
  have hEnd : dayOfYear = 365 → extra = 1 := by omega
  have hOne : extra ≤ 1 := by omega
  refine ⟨by omega, ?_⟩
  rw [hCentury, hFour]
  clear hFour hExtra hCentury
  generalize day / 146096 = last at hLast ⊢
  omega

theorem dateOfDay_eq {a b c dayOfYear : Nat} (ha : a < 4) (hb : b < 25) (hc : c < 4)
    (hYear : dayOfYear ≤ 365) (hLeap : dayOfYear = 365 → a = 3 ∧ (b ≠ 24 ∨ c = 3)) {period : Int}
    (hDay : n + 719468 =
      146097 * period + (36524 * c + 1461 * b + 365 * a + dayOfYear : Nat)) :
    let monthFromMarch := (5 * dayOfYear + 2) / 153
    let month := (monthFromMarch + 2) % 12 + 1
    dateOfDay n =
      { year := ((100 * c + 4 * b + a : Nat) : Int) + 400 * period + (if month ≤ 2 then 1 else 0)
        month
        day := dayOfYear - (153 * monthFromMarch + 2) / 5 + 1 } := by
  obtain ⟨hPeriod, hFound⟩ := year_of_day ha hb hc hYear hLeap rfl
  generalize hEq : 36524 * c + 1461 * b + 365 * a + dayOfYear = day at hDay hPeriod hFound
  have hDiv : (n + 719468) / 146097 = period := by omega
  have hMod : ((n + 719468) % 146097).toNat = day := by omega
  have hFour : (100 * c + 4 * b + a) / 4 = 25 * c + b := by omega
  have hCentury : (100 * c + 4 * b + a) / 100 = c := by omega
  have hRest : day - (365 * (100 * c + 4 * b + a) + (25 * c + b) - c) = dayOfYear := by omega
  unfold dateOfDay
  dsimp only
  rw [hDiv, hMod, hFound, hFour, hCentury, hRest]

theorem monthLength_le (year : Int) (month : Nat) : monthLength year month ≤ 31 ∧
    (month = 2 → monthLength year month ≤ 29) ∧
    (month = 4 ∨ month = 6 ∨ month = 9 ∨ month = 11 → monthLength year month ≤ 30) := by
  unfold monthLength
  split
  · split <;> omega
  · split
    · omega
    · next hLong =>
      simp only [List.mem_cons, List.not_mem_nil, or_false] at hLong
      omega

/-- A month is found from a day of its year, which begins in March. -/
theorem month_of_day (hFirst : 1 ≤ month) (hLast : month ≤ 12) {day : Nat} (hOne : 1 ≤ day)
    (hDay : day ≤ monthLength year month) {monthFromMarch dayOfYear : Nat}
    (hMarch : monthFromMarch = (month + 9) % 12)
    (hYear : dayOfYear = (153 * monthFromMarch + 2) / 5 + day - 1) :
    (5 * dayOfYear + 2) / 153 = monthFromMarch ∧ dayOfYear ≤ 365 ∧
      (dayOfYear = 365 → month = 2 ∧ day = 29) := by
  obtain ⟨hLong, hShort, hMiddle⟩ := monthLength_le year month
  generalize monthLength year month = days at hDay hLong hShort hMiddle
  subst hYear hMarch
  interval_cases month <;> omega

theorem leap_of_le_monthLength (hDay : 29 ≤ monthLength year 2) :
    year % 4 = 0 ∧ (year % 100 ≠ 0 ∨ year % 400 = 0) := by
  by_contra hLeap
  rw [monthLength, if_pos rfl, if_neg hLeap] at hDay
  omega

theorem dateOfDay_number (hValid : d.Valid) : dateOfDay d.number = d := by
  obtain ⟨year, month, day⟩ := d
  obtain ⟨⟨hFirst, hLast⟩, hOne, hDay⟩ := hValid
  dsimp only at hFirst hLast hOne hDay
  obtain ⟨y, hy⟩ : ∃ y, y = if month ≤ 2 then year - 1 else year := ⟨_, rfl⟩
  obtain ⟨m, hm⟩ : ∃ m, m = (month + 9) % 12 := ⟨_, rfl⟩
  obtain ⟨dayOfYear, hDayOfYear⟩ : ∃ k, k = (153 * m + 2) / 5 + day - 1 := ⟨_, rfl⟩
  have hNumber : Date.number ⟨year, month, day⟩ = 365 * y + y / 4 - y / 100 + y / 400 +
      ((153 * m + 2) / 5 + day : Nat) - 719469 := by rw [hy, hm]; rfl
  obtain ⟨hFound, hShort, hLong⟩ := month_of_day hFirst hLast hOne hDay hm hDayOfYear
  -- the year in its four years, these in their century, and the century in its period
  obtain ⟨c, hc⟩ : ∃ c : Nat, (c : Int) = y % 400 / 100 := ⟨_, Int.toNat_of_nonneg (by omega)⟩
  obtain ⟨b, hb⟩ : ∃ b : Nat, (b : Int) = y % 100 / 4 := ⟨_, Int.toNat_of_nonneg (by omega)⟩
  obtain ⟨a, ha⟩ : ∃ a : Nat, (a : Int) = y % 4 := ⟨_, Int.toNat_of_nonneg (by omega)⟩
  have hFour : y / 4 = 100 * (y / 400) + 25 * c + b := by omega
  have hCentury : y / 100 = 4 * (y / 400) + c := by omega
  have hYear : y = 400 * (y / 400) + 100 * c + 4 * b + a := by omega
  have hLeap : dayOfYear = 365 → a = 3 ∧ (b ≠ 24 ∨ c = 3) := by
    intro hEnd
    obtain ⟨rfl, rfl⟩ := hLong hEnd
    have hRule := leap_of_le_monthLength hDay
    rw [if_pos (le_refl 2)] at hy
    omega
  have hDays : Date.number ⟨year, month, day⟩ + 719468 =
      146097 * (y / 400) + (36524 * c + 1461 * b + 365 * a + dayOfYear : Nat) := by
    rw [hNumber, hFour, hCentury]
    omega
  have hName : (m + 2) % 12 + 1 = month := by omega
  rw [dateOfDay_eq (by omega) (by omega) (by omega) hShort hLeap hDays, hFound, hName,
    Date.mk.injEq]
  refine ⟨?_, rfl, by omega⟩
  split at hy
  · next hEarly =>
    rw [if_pos hEarly]
    omega
  · next hLate =>
    rw [if_neg hLate]
    omega

/-- Each number is that of a day, and the day is found. -/
theorem numbered_dateOfDay (n : Int) : Numbered (dateOfDay n) n := by
  obtain ⟨d, hValid, rfl⟩ := exists_number_eq n
  rw [dateOfDay_number hValid]
  exact counted_of_valid hValid

end PackageManager.Calendar
