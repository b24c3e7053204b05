import PackageManager.Calendar
import PackageManager.Text.Blank
import PackageManager.Text.Cut
import PackageManager.Text.Decimal

/-!
# Timestamps

Repositories say when a version was uploaded and until when they stay where they are. They write
the date, the time and the distance from universal time, as in `2024-01-10T09:00:00+01:00`; the
library writes all timestamps in universal time. It reads them liberally: numbers need no leading
zeros, blanks may surround the marks between them, and a year may have a sign.

A leap second has the number of the second before it, and more than a thousand million
nanoseconds, so that it comes after that second and before the next one.
-/

namespace PackageManager

/-- A moment, counted from the beginning of 1970 in universal time. -/
structure Timestamp where
  seconds : Int
  nanos : Nat := 0
deriving DecidableEq, Inhabited

namespace Timestamp

/-- Whether a moment comes before another. -/
def before (a b : Timestamp) : Bool :=
  a.seconds < b.seconds || (a.seconds = b.seconds && a.nanos < b.nanos)

/-- The moment that many hours later. -/
def plusHours (t : Timestamp) (hours : Nat) : Timestamp :=
  { t with seconds := t.seconds + 3600 * hours }

/-- A date and a time of day, as the clocks of a place show them. -/
structure LocalTime where
  date : Calendar.Date
  hour : Nat
  minute : Nat
  second : Nat
  nanos : Nat
  /-- The seconds by which these clocks are ahead of universal time. -/
  ahead : Int
deriving DecidableEq

/-- The date and the time of a moment, by clocks that show universal time. -/
def universal (t : Timestamp) : LocalTime :=
  let ofDay := (t.seconds % 86400).toNat
  { date := Calendar.dateOfDay (t.seconds / 86400)
    hour := ofDay / 3600
    minute := ofDay / 60 % 60
    second := ofDay % 60 + if 1000000000 ≤ t.nanos then 1 else 0
    nanos := if 1000000000 ≤ t.nanos then t.nanos - 1000000000 else t.nanos
    ahead := 0 }

/-! ## Writing -/

/-- A number with at least the given number of digits. -/
def padded (width n : Nat) : List Char :=
  let ds := Text.digits n
  List.replicate (width - ds.length) '0' ++ ds

/-- The digits after the point: none, three, six or nine. -/
def fractionText (nanos : Nat) : List Char :=
  if nanos = 0 then []
  else if nanos % 1000000 = 0 then '.' :: padded 3 (nanos / 1000000)
  else if nanos % 1000 = 0 then '.' :: padded 6 (nanos / 1000)
  else '.' :: padded 9 nanos

/-- A year, with a sign if it does not have four digits. -/
def yearText (year : Int) : List Char :=
  if 0 ≤ year ∧ year ≤ 9999 then padded 4 year.toNat
  else (if year < 0 then '-' else '+') :: padded 4 year.natAbs

/-- The text of a timestamp, in universal time. -/
def text (t : Timestamp) : String :=
  let u := t.universal
  let date :=
    yearText u.date.year ++ '-' :: padded 2 u.date.month ++ '-' :: padded 2 u.date.day
  let clock := padded 2 u.hour ++ ':' :: padded 2 u.minute ++ ':' :: padded 2 u.second
  String.ofList (date ++ 'T' :: clock ++ fractionText u.nanos ++ ['+', '0', '0', ':', '0', '0'])

/-! ## Reading -/

/-- A number of at most the given number of digits, and what follows it; blanks may stand before
it. -/
def number? (width : Nat) (cs : List Char) : Option (Nat × List Char) :=
  let cs := cs.dropWhile Text.isBlank
  (Text.someDigits (cs.take width)).map fun p => (Text.digitsValue p.1, cs.drop p.1.length)

/-- A year, and what follows it. With a sign it may have any number of digits. -/
def year? (cs : List Char) : Option (Int × List Char) :=
  match cs.dropWhile Text.isBlank with
  | '-' :: cs => (Text.someDigits cs).map fun p => (-(Text.digitsValue p.1 : Int), p.2)
  | '+' :: cs => (Text.someDigits cs).map fun p => (Text.digitsValue p.1, p.2)
  | _ => (number? 4 cs).map fun p => (p.1, p.2)

/-- What follows a mark between two numbers; blanks may stand before it. -/
def afterMark? (mark : Char) (cs : List Char) : Option (List Char) :=
  Text.afterOneOf? [mark] (cs.dropWhile Text.isBlank)

/-- Three numbers with a mark before the second and the third one, and what follows them. How the
first number is written is a matter of its own. -/
def triple? {α : Type} (first? : List Char → Option (α × List Char)) (mark : Char)
    (cs : List Char) : Option ((α × Nat × Nat) × List Char) := do
  let (first, cs) ← first? cs
  let (second, cs) ← number? 2 (← afterMark? mark cs)
  let (third, cs) ← number? 2 (← afterMark? mark cs)
  return ((first, second, third), cs)

/-- The nanoseconds that the digits after a point stand for, if there is a point; digits beyond the
ninth do not matter. -/
def fraction? : List Char → Option (Nat × List Char)
  | '.' :: cs =>
    (Text.someDigits cs).map fun p =>
      let ds := p.1.take 9
      (Text.digitsValue ds * Nat.pow 10 (9 - ds.length), p.2)
  | cs => some (0, cs)

/-- The seconds by which a zone with a sign is ahead of universal time. Colons and blanks may stand
between its hours and its minutes. -/
def signedZone? (cs : List Char) : Option (Int × List Char) := do
  let (hours, cs) ← Text.fixedNumber? 2 cs
  let (minutes, cs) ← Text.fixedNumber? 2 (cs.dropWhile fun c => c = ':' || Text.isBlank c)
  if hours < 24 ∧ minutes < 60 then some (hours * 3600 + minutes * 60, cs) else none

/-- The seconds by which a zone is ahead of universal time, and what follows it. A zone is a sign
and a distance, or a name of universal time. -/
def bareZone? : List Char → Option (Int × List Char)
  | [] => none
  | c :: cs =>
    if (c :: cs.take 2).map Char.toLower = ['u', 't', 'c'] then some (0, cs.drop 2)
    else if c = 'Z' ∨ c = 'z' then some (0, cs)
    else if c = '+' then signedZone? cs
    else if c = '-' ∨ c = '−' then (signedZone? cs).map fun p => (-p.1, p.2)
    else none

/-- A zone; blanks may stand before it. -/
def zone? (cs : List Char) : Option (Int × List Char) := bareZone? (cs.dropWhile Text.isBlank)

namespace LocalTime

/-- The date and the time that a text consists of, whether or not there is such a time. -/
def read? (cs : List Char) : Option LocalTime := do
  let ((year, month, day), cs) ← triple? year? '-' cs
  let cs ← Text.afterOneOf? ['T', 't', ' '] cs
  let ((hour, minute, second), cs) ← triple? (number? 2) ':' cs
  let (nanos, cs) ← fraction? cs
  let (ahead, cs) ← zone? cs
  if cs.all Text.isBlank then
    some { date := ⟨year, month, day⟩, hour, minute, second, nanos, ahead }
  else none

/-- There is such a time of day. A minute may end with a leap second. -/
def Valid (t : LocalTime) : Prop := t.date.Valid ∧ t.hour < 24 ∧ t.minute < 60 ∧ t.second ≤ 60

instance (t : LocalTime) : Decidable t.Valid := inferInstanceAs (Decidable (_ ∧ _))

/-- The seconds from the beginning of 1970, by the clocks of the place. -/
def seconds (t : LocalTime) : Int :=
  t.date.number * 86400 + t.hour * 3600 + t.minute * 60 + min t.second 59

/-- The moment in universal time. -/
def moment (t : LocalTime) : Timestamp where
  seconds := t.seconds - t.ahead
  nanos := if t.second = 60 then t.nanos + 1000000000 else t.nanos

end LocalTime

/-- The seconds whose dates have a place in the calendar of timestamps. -/
def Representable (seconds : Int) : Prop :=
  (⟨-262143, 1, 1⟩ : Calendar.Date).number * 86400 ≤ seconds ∧
    seconds < ((⟨262142, 12, 31⟩ : Calendar.Date).number + 1) * 86400

instance (seconds : Int) : Decidable (Representable seconds) :=
  inferInstanceAs (Decidable (_ ∧ _))

/-- The timestamp that a text spells. -/
def parse? (s : String) : Option Timestamp := do
  let t ← LocalTime.read? s.toList
  if t.Valid ∧ Representable t.seconds ∧ Representable t.moment.seconds then some t.moment else none

end Timestamp

end PackageManager
