/-!
# The calendar

Days are numbered through, so that a distance in time is a difference of numbers. The first day of
1970 has the number zero, and the rule for leap years holds without limit in both directions.
-/

namespace PackageManager.Calendar

/-- A date, whether or not the calendar has such a day. -/
structure Date where
  year : Int
  month : Nat
  day : Nat
deriving DecidableEq

/-- How many days a month has. -/
def monthLength (year : Int) (month : Nat) : Nat :=
  if month = 2 then
    if year % 4 = 0 ∧ (year % 100 ≠ 0 ∨ year % 400 = 0) then 29 else 28
  else if month ∈ [4, 6, 9, 11] then 30
  else 31

namespace Date

/-- The calendar has such a day. -/
def Valid (d : Date) : Prop :=
  (1 ≤ d.month ∧ d.month ≤ 12) ∧ 1 ≤ d.day ∧ d.day ≤ monthLength d.year d.month

instance (d : Date) : Decidable d.Valid := inferInstanceAs (Decidable (_ ∧ _))

/-- The number of a day, where the first day of 1970 has the number zero. Years are counted from
March, so that the day which leap years add comes last. -/
def number (d : Date) : Int :=
  let year := if d.month ≤ 2 then d.year - 1 else d.year
  let monthFromMarch := (d.month + 9) % 12
  365 * year + year / 4 - year / 100 + year / 400
    + ((153 * monthFromMarch + 2) / 5 + d.day : Nat) - 719469

end Date

/-- The day with a number. -/
def dateOfDay (n : Int) : Date :=
  let n := n + 719468
  let period := n / 146097
  let day := (n % 146097).toNat
  let year := (day - day / 1460 + day / 36524 - day / 146096) / 365
  let dayOfYear := day - (365 * year + year / 4 - year / 100)
  let monthFromMarch := (5 * dayOfYear + 2) / 153
  let month := (monthFromMarch + 2) % 12 + 1
  { year := (year : Int) + 400 * period + (if month ≤ 2 then 1 else 0)
    month
    day := dayOfYear - (153 * monthFromMarch + 2) / 5 + 1 }

end PackageManager.Calendar
