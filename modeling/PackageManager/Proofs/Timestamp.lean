import PackageManager.Proofs.Calendar
import PackageManager.Proofs.Text.Blanks
import PackageManager.Proofs.Text.Parts
import PackageManager.Timestamp
import Mathlib.Data.Prod.Lex

/-!
# How moments are written

A timestamp is read from left to right, and each part of it takes as much of the text as it can.
That it takes neither too much nor too little is a matter of what may come next: after a number
there is a mark, a point, a zone or white space, and none of these is a digit. So the text is cut at
the only places where it can be cut, and what a text says about a moment can be described without
the order of reading, by the parts that it is put together from.

The moment itself is described by counting, days from the first day of 1970 and seconds from the
beginning of the day, less the seconds by which the clocks of the place are ahead.

## Main results

* `before_iff_lt` — moments are in a linear order.
* `read?_eq_some_iff` — which texts consist of a date, a time and a zone.
* `parse?_eq_some_iff` — which moment a text spells.
-/

namespace PackageManager.Timestamp

open Text

/-! ## The order of moments -/

/-- The seconds of a moment, and what has passed of the next one. -/
def key (t : Timestamp) : Int ×ₗ Nat := toLex (t.seconds, t.nanos)

theorem key_injective : Function.Injective key := by
  rintro ⟨seconds, nanos⟩ ⟨seconds', nanos'⟩ hKey
  obtain ⟨rfl, rfl⟩ := Prod.mk.inj (toLex_inj.1 hKey)
  rfl

/-- Moments come in the order of their seconds, and within a second in that of their
nanoseconds. -/
instance : LinearOrder Timestamp := LinearOrder.lift' key key_injective

theorem before_iff_lt {a b : Timestamp} : a.before b ↔ a < b := by
  have hLt : a < b ↔ a.seconds < b.seconds ∨ a.seconds = b.seconds ∧ a.nanos < b.nanos :=
    Prod.Lex.toLex_lt_toLex
  simp [before, hLt]

/-! ## The parts of a timestamp -/

/-- A number that is written with so many digits at most, behind white space. -/
inductive NumberSpelling (width : Nat) : Nat → List Char → Prop
  | intro {b ds : List Char} (hb : Blanks b) (hds : Numeral ds) (hWidth : ds.length ≤ width) :
      NumberSpelling width (digitsValue ds) (b ++ ds)

/-- A year. Without a sign it has four digits at most. -/
inductive YearSpelling : Int → List Char → Prop
  | plain {year : Nat} {cs : List Char} (h : NumberSpelling 4 year cs) : YearSpelling year cs
  | plus {b ds : List Char} (hb : Blanks b) (hds : Numeral ds) :
      YearSpelling (digitsValue ds) (b ++ '+' :: ds)
  | minus {b ds : List Char} (hb : Blanks b) (hds : Numeral ds) :
      YearSpelling (-digitsValue ds) (b ++ '-' :: ds)

/-- Three numbers with a mark before the second and the third one, perhaps behind white space. -/
inductive TripleSpelling {α : Type} (form : α → List Char → Prop) (mark : Char) :
    α × Nat × Nat → List Char → Prop
  | intro {a : α} {m n : Nat} {first second third b b' : List Char} (hFirst : form a first)
      (hb : Blanks b) (hSecond : NumberSpelling 2 m second)
      (hb' : Blanks b') (hThird : NumberSpelling 2 n third) :
      TripleSpelling form mark (a, m, n)
        (first ++ (b ++ mark :: (second ++ (b' ++ mark :: third))))

/-- The nanoseconds of a decimal fraction; what is less than a nanosecond is dropped. -/
inductive FractionSpelling : Nat → List Char → Prop
  | none : FractionSpelling 0 []
  | point {ds : List Char} (hds : Numeral ds) :
      FractionSpelling (10 ^ 9 * digitsValue ds / 10 ^ ds.length) ('.' :: ds)

/-- Hours and minutes of two digits each, in seconds. -/
inductive DistanceSpelling : Int → List Char → Prop
  | intro {hours between minutes : List Char}
      (hHours : hours.length = 2 ∧ ∀ c ∈ hours, c.isDigit)
      (hBetween : ∀ c ∈ between, c = ':' ∨ isBlank c)
      (hMinutes : minutes.length = 2 ∧ ∀ c ∈ minutes, c.isDigit)
      (hRange : digitsValue hours < 24 ∧ digitsValue minutes < 60) :
      DistanceSpelling (digitsValue hours * 3600 + digitsValue minutes * 60)
        (hours ++ between ++ minutes)

/-- The seconds by which the clocks of a zone are ahead of universal time. -/
inductive ZoneSpelling : Int → List Char → Prop
  | utc {u t c : Char} (h : [u, t, c].map Char.toLower = ['u', 't', 'c']) : ZoneSpelling 0 [u, t, c]
  | zulu {c : Char} (h : c = 'Z' ∨ c = 'z') : ZoneSpelling 0 [c]
  | ahead {n : Int} {cs : List Char} (h : DistanceSpelling n cs) : ZoneSpelling n ('+' :: cs)
  | behind {n : Int} {cs : List Char} {sign : Char} (hSign : sign = '-' ∨ sign = '−')
      (h : DistanceSpelling n cs) : ZoneSpelling (-n) (sign :: cs)

/-- A date and a time of day. -/
inductive Spelling (t : LocalTime) : List Char → Prop
  | intro {date clock fraction zone b b' : List Char} {mark : Char}
      (hDate : TripleSpelling YearSpelling '-' (t.date.year, t.date.month, t.date.day) date)
      (hMark : mark ∈ ['T', 't', ' '])
      (hClock : TripleSpelling (NumberSpelling 2) ':' (t.hour, t.minute, t.second) clock)
      (hFraction : FractionSpelling t.nanos fraction)
      (hb : Blanks b) (hZone : ZoneSpelling t.ahead zone) (hb' : Blanks b') :
      Spelling t (date ++ mark :: (clock ++ (fraction ++ (b ++ (zone ++ b')))))

/-- A time of some place is a moment in universal time. The days are counted. A leap second has the
number of the second before it and follows all nanoseconds of that. -/
structure Denotes (t : LocalTime) (moment : Timestamp) : Prop where
  time : t.hour < 24 ∧ t.minute < 60 ∧ t.second ≤ 60
  seconds : ∃ n, Calendar.Numbered t.date n ∧ moment.seconds + t.ahead =
    86400 * n + 3600 * t.hour + 60 * t.minute + if t.second = 60 then 59 else t.second
  nanos : moment.nanos = t.nanos + if t.second = 60 then 10 ^ 9 else 0
  representable : Representable (moment.seconds + t.ahead) ∧ Representable moment.seconds

/-- A text says that a moment is meant. -/
def Spells (s : String) (moment : Timestamp) : Prop := ∃ t, Spelling t s.toList ∧ Denotes t moment

/-! ## Reading the parts -/

/-- A reader takes a spelling off the front of a text, and it takes every spelling if what comes
next can follow it. -/
structure Reads {α : Type} (read : List Char → Option (α × List Char)) (form : α → List Char → Prop)
    (follows : Char → Prop) : Prop where
  sound {cs rest : List Char} {a : α} (h : read cs = some (a, rest)) :
    ∃ front, form a front ∧ cs = front ++ rest
  complete {front rest : List Char} {a : α} (h : form a front)
    (hRest : ∀ c ∈ rest.head?, follows c) : read (front ++ rest) = some (a, rest)

variable {cs ds rest b : List Char}

theorem head?_numeral_append (hds : Numeral ds) (rest : List Char) :
    ∀ c ∈ (ds ++ rest).head?, c.isDigit := by
  intro c hc
  rw [List.head?_append_of_ne_nil _ hds.ne_nil] at hc
  exact hds.digits c (List.mem_of_mem_head? hc)

theorem reads_number (width : Nat) :
    Reads (number? width) (NumberSpelling width) (·.isDigit = false) where
  sound := by
    intro cs rest n hRead
    obtain ⟨⟨ds, after⟩, hDigits, hParts⟩ := Option.map_eq_some_iff.1 hRead
    obtain ⟨rfl, rfl⟩ := Prod.mk.inj hParts
    obtain ⟨hds, hTake, -⟩ := someDigits_eq_some_iff.1 hDigits
    obtain ⟨b, hb, hSplit⟩ := exists_blanks_append cs
    have hPrefix : ds <+: (cs.dropWhile isBlank).take width := ⟨after, hTake.symm⟩
    have hWidth : ds.length ≤ width := hPrefix.length_le.trans (List.length_take_le width _)
    have hFront := List.prefix_iff_eq_append.1 (hPrefix.trans (List.take_prefix width _))
    refine ⟨b ++ ds, .intro hb hds hWidth, ?_⟩
    rw [List.append_assoc, hFront]
    exact hSplit
  complete := by
    rintro _ rest _ @⟨b, ds, hb, hds, hWidth⟩ hRest
    have hHead : ∀ c ∈ (ds ++ rest).head?, isBlank c = false := fun c hc =>
      isBlank_eq_false_of_isDigit (head?_numeral_append hds rest c hc)
    have hDigits : someDigits ((ds ++ rest).take width) =
        some (ds, rest.take (width - ds.length)) := by
      refine someDigits_eq_some_iff.2 ⟨hds, ?_, fun c hc => hRest c ?_⟩
      · rw [List.take_append, List.take_of_length_le hWidth]
      · rw [Option.mem_def, List.head?_take] at hc
        exact (Option.ite_none_left_eq_some.1 hc).2
    rw [number?, List.append_assoc, dropWhile_isBlank_append hb hHead, hDigits]
    simp

theorem reads_year : Reads year? YearSpelling (·.isDigit = false) where
  sound := by
    intro cs rest year hRead
    obtain ⟨b, hb, hSplit⟩ := exists_blanks_append cs
    unfold year? at hRead
    split at hRead
    · next cs' hHead =>
      obtain ⟨⟨ds, after⟩, hDigits, hParts⟩ := Option.map_eq_some_iff.1 hRead
      obtain ⟨rfl, rfl⟩ := Prod.mk.inj hParts
      obtain ⟨hds, rfl, -⟩ := someDigits_eq_some_iff.1 hDigits
      exact ⟨b ++ '-' :: ds, .minus hb hds, by rw [hSplit, hHead]; simp⟩
    · next cs' hHead =>
      obtain ⟨⟨ds, after⟩, hDigits, hParts⟩ := Option.map_eq_some_iff.1 hRead
      obtain ⟨rfl, rfl⟩ := Prod.mk.inj hParts
      obtain ⟨hds, rfl, -⟩ := someDigits_eq_some_iff.1 hDigits
      exact ⟨b ++ '+' :: ds, .plus hb hds, by rw [hSplit, hHead]; simp⟩
    · obtain ⟨⟨n, after⟩, hNumber, hParts⟩ := Option.map_eq_some_iff.1 hRead
      obtain ⟨rfl, rfl⟩ := Prod.mk.inj hParts
      obtain ⟨front, hFront, hRest⟩ := (reads_number 4).sound hNumber
      exact ⟨front, .plain hFront, hRest⟩
  complete := by
    rintro front rest year hSpelling hRest
    unfold year?
    cases hSpelling with
    | plain hNumber =>
      have hRead := (reads_number 4).complete hNumber hRest
      obtain @⟨b, ds, hb, hds, hWidth⟩ := hNumber
      have hHead := head?_numeral_append hds rest
      have hSkip : (b ++ ds ++ rest).dropWhile isBlank = ds ++ rest := by
        rw [List.append_assoc]
        exact dropWhile_isBlank_append hb fun c hc => isBlank_eq_false_of_isDigit (hHead c hc)
      rw [hSkip]
      split
      · next hSign => exact absurd (hHead '-' (by rw [hSign]; rfl)) (by decide)
      · next hSign => exact absurd (hHead '+' (by rw [hSign]; rfl)) (by decide)
      · rw [hRead]
        rfl
    | @plus b ds hb hds =>
      have hDigits := someDigits_eq_some_iff.2 ⟨hds, rfl, hRest⟩
      have hSkip : (b ++ '+' :: (ds ++ rest)).dropWhile isBlank = '+' :: (ds ++ rest) :=
        dropWhile_isBlank_append hb (by rintro c ⟨⟩; decide)
      simp [hSkip, hDigits]
    | @minus b ds hb hds =>
      have hDigits := someDigits_eq_some_iff.2 ⟨hds, rfl, hRest⟩
      have hSkip : (b ++ '-' :: (ds ++ rest)).dropWhile isBlank = '-' :: (ds ++ rest) :=
        dropWhile_isBlank_append hb (by rintro c ⟨⟩; decide)
      simp [hSkip, hDigits]

theorem afterMark?_eq_some_iff {mark : Char} (hMark : isBlank mark = false) :
    afterMark? mark cs = some rest ↔ ∃ b, Blanks b ∧ cs = b ++ mark :: rest := by
  unfold afterMark?
  rw [afterOneOf?_eq_some_iff]
  constructor
  · rintro ⟨c, hc, hHead⟩
    obtain rfl := List.mem_singleton.1 hc
    obtain ⟨b, hb, hSplit⟩ := exists_blanks_append cs
    exact ⟨b, hb, by rw [← hHead]; exact hSplit⟩
  · rintro ⟨b, hb, rfl⟩
    exact ⟨mark, List.mem_singleton_self mark,
      dropWhile_isBlank_append hb (by rintro c ⟨⟩; exact hMark)⟩

/-- The first nine digits of a fraction are its nanoseconds. -/
theorem nanos_of_digits (hDigits : ∀ c ∈ ds, c.isDigit) :
    digitsValue (ds.take 9) * Nat.pow 10 (9 - (ds.take 9).length) =
      10 ^ 9 * digitsValue ds / 10 ^ ds.length := by
  show digitsValue (ds.take 9) * 10 ^ (9 - (ds.take 9).length) = _
  by_cases hShort : ds.length ≤ 9
  · have hPow : 10 ^ 9 = 10 ^ (9 - ds.length) * 10 ^ ds.length := by
      rw [← Nat.pow_add, Nat.sub_add_cancel hShort]
    rw [List.take_of_length_le hShort, hPow, Nat.mul_right_comm,
      Nat.mul_div_cancel _ (Nat.pow_pos (by decide)), Nat.mul_comm]
  · have hNine : (ds.take 9).length = 9 := by
      rw [List.length_take]
      omega
    have hLength : ds.length = 9 + (ds.drop 9).length := by
      rw [List.length_drop]
      omega
    have hValue := digitsValue_append (ds.take 9) (ds.drop 9)
    have hRest : digitsValue (ds.drop 9) < 10 ^ (ds.drop 9).length :=
      digitsValue_lt fun c hc => hDigits c (List.mem_of_mem_drop hc)
    rw [List.take_append_drop] at hValue
    rw [hNine, hLength, hValue, Nat.pow_add, Nat.mul_div_mul_left _ _ (Nat.pow_pos (by decide)),
      Nat.mul_add_div (Nat.pow_pos (by decide)), Nat.div_eq_of_lt hRest, Nat.sub_self, Nat.pow_zero,
      Nat.mul_one, Nat.add_zero]

theorem reads_fraction :
    Reads fraction? FractionSpelling fun c => c.isDigit = false ∧ c ≠ '.' where
  sound := by
    intro cs rest n hRead
    unfold fraction? at hRead
    split at hRead
    · next cs =>
      obtain ⟨⟨ds, after⟩, hDigits, hParts⟩ := Option.map_eq_some_iff.1 hRead
      obtain ⟨rfl, rfl⟩ := Prod.mk.inj hParts
      obtain ⟨hds, rfl, -⟩ := someDigits_eq_some_iff.1 hDigits
      dsimp only
      rw [nanos_of_digits hds.digits]
      exact ⟨'.' :: ds, .point hds, rfl⟩
    · cases hRead
      exact ⟨[], .none, rfl⟩
  complete := by
    intro front rest n hSpelling hRest
    cases hSpelling with
    | none =>
        cases rest with
        | nil => rfl
        | cons c rest =>
            unfold fraction?
            split
            · next hPoint => exact absurd (List.cons.inj hPoint).1 (hRest c rfl).2
            · rfl
    | @point ds hds =>
        have hDigits := someDigits_eq_some_iff.2 ⟨hds, rfl, fun c hc => (hRest c hc).1⟩
        rw [List.cons_append, fraction?, hDigits, Option.map_some]
        exact congrArg (fun n => some (n, rest)) (nanos_of_digits hds.digits)

theorem FractionSpelling.head? {n : Nat} (hFraction : FractionSpelling n cs)
    (hRest : ∀ c ∈ rest.head?, c.isDigit = false) :
    ∀ c ∈ (cs ++ rest).head?, c.isDigit = false := by
  cases hFraction with
  | none => exact hRest
  | point hds =>
      rintro _ ⟨⟩
      decide

/-! ## Reading zones -/

variable {n : Int}

theorem signedZone?_eq_some_iff : signedZone? cs = some (n, rest) ↔
    ∃ front, DistanceSpelling n front ∧ cs = front ++ rest := by
  unfold signedZone?
  simp only [Option.bind_eq_bind, Option.bind_eq_some_iff, Prod.exists, fixedNumber?_eq_some_iff,
    Option.ite_none_right_eq_some]
  constructor
  · rintro ⟨_, cs', ⟨hours, hHours, rfl, rfl⟩, _, _, ⟨minutes, hMinutes, rfl, hRest⟩, hRange, hEnd⟩
    obtain ⟨rfl, rfl⟩ := Prod.mk.inj (Option.some.inj hEnd)
    have hBetween : ∀ c ∈ cs'.takeWhile (fun c => c = ':' || isBlank c), c = ':' ∨ isBlank c :=
      fun c hc => by simpa using List.mem_takeWhile_imp hc
    refine ⟨_, .intro hHours hBetween hMinutes hRange, ?_⟩
    rw [List.append_assoc, List.append_assoc, ← hRest, List.takeWhile_append_dropWhile]
  · rintro ⟨_, @⟨hours, between, minutes, hHours, hBetween, hMinutes, hRange⟩, rfl⟩
    have hSome : minutes ≠ [] := List.ne_nil_of_length_eq_add_one hMinutes.1
    have hStop : ∀ c ∈ (minutes ++ rest).head?, (c = ':' || isBlank c) = false := by
      intro c hc
      have hDigit := head?_numeral_append ⟨hSome, hMinutes.2⟩ rest c hc
      have hColon : c ≠ ':' := by
        rintro rfl
        exact absurd hDigit (by decide)
      simp [hColon, isBlank_eq_false_of_isDigit hDigit]
    refine ⟨_, between ++ (minutes ++ rest), ⟨hours, hHours, rfl, by simp⟩, _, rest,
      ⟨minutes, hMinutes, rfl, ?_⟩, hRange, rfl⟩
    exact (span_append (by simpa using hBetween) hStop).2

theorem bareZone?_of_toLower_ne {c : Char} (hc : c.toLower ≠ 'u') (cs : List Char) :
    bareZone? (c :: cs) =
      if c = 'Z' ∨ c = 'z' then some (0, cs)
      else if c = '+' then signedZone? cs
      else if c = '-' ∨ c = '−' then (signedZone? cs).map fun p => (-p.1, p.2)
      else none :=
  if_neg fun hName => hc (List.cons.inj hName).1

theorem bareZone?_eq_some_iff : bareZone? cs = some (n, rest) ↔
    ∃ front, ZoneSpelling n front ∧ cs = front ++ rest := by
  constructor
  · intro hRead
    unfold bareZone? at hRead
    split at hRead
    · cases hRead
    · next c cs =>
      split at hRead
      · next hName =>
        cases hRead
        obtain _ | ⟨t, _ | ⟨d, cs⟩⟩ := cs
        · simp at hName
        · simp at hName
        · exact ⟨[c, t, d], .utc hName, rfl⟩
      split at hRead
      · next hName =>
        cases hRead
        exact ⟨[c], .zulu hName, rfl⟩
      split at hRead
      · next hSign =>
        obtain ⟨front, hDistance, rfl⟩ := signedZone?_eq_some_iff.1 hRead
        exact ⟨'+' :: front, .ahead hDistance, by rw [hSign, List.cons_append]⟩
      split at hRead
      · next hSign =>
        obtain ⟨⟨n, after⟩, hZone, hParts⟩ := Option.map_eq_some_iff.1 hRead
        obtain ⟨rfl, rfl⟩ := Prod.mk.inj hParts
        obtain ⟨front, hDistance, rfl⟩ := signedZone?_eq_some_iff.1 hZone
        exact ⟨c :: front, .behind hSign hDistance, rfl⟩
      · cases hRead
  · rintro ⟨front, hSpelling, rfl⟩
    cases hSpelling with
    | utc hName => exact if_pos hName
    | zulu hName =>
      rcases hName with rfl | rfl
      · exact bareZone?_of_toLower_ne (by decide) rest
      · exact bareZone?_of_toLower_ne (by decide) rest
    | @ahead n cs hDistance =>
      have hZone : signedZone? (cs ++ rest) = some (n, rest) :=
        signedZone?_eq_some_iff.2 ⟨cs, hDistance, rfl⟩
      exact (bareZone?_of_toLower_ne (by decide) _).trans hZone
    | @behind n cs sign hSign hDistance =>
      have hZone : signedZone? (cs ++ rest) = some (n, rest) :=
        signedZone?_eq_some_iff.2 ⟨cs, hDistance, rfl⟩
      have hBehind : (signedZone? (cs ++ rest)).map (fun p => (-p.1, p.2)) = some (-n, rest) := by
        rw [hZone, Option.map_some]
      rcases hSign with rfl | rfl
      · exact (bareZone?_of_toLower_ne (by decide) _).trans hBehind
      · exact (bareZone?_of_toLower_ne (by decide) _).trans hBehind

theorem toNat_of_toLower_eq {c : Char} (hLower : c.toLower = 'u') :
    65 ≤ c.toNat ∧ c.toNat ≤ 122 := by
  unfold Char.toLower at hLower
  split at hLower
  · next hUpper =>
    have hTo : c.toNat ≤ 90 := hUpper.2
    exact ⟨hUpper.1, hTo.trans (by decide)⟩
  · subst hLower
    decide

/-- A zone begins neither with white space nor with a digit or a point. -/
theorem ZoneSpelling.head? (hZone : ZoneSpelling n cs) (rest : List Char) :
    ∀ c ∈ (cs ++ rest).head?, isBlank c = false ∧ c.isDigit = false ∧ c ≠ '.' := by
  cases hZone with
  | @utc u t c hName =>
    rintro _ ⟨⟩
    obtain ⟨hFrom, hTo⟩ := toNat_of_toLower_eq (List.cons.inj hName).1
    refine ⟨isBlank_eq_false_of_toNat (by omega) (by omega), ?_, ?_⟩
    · refine Bool.eq_false_iff.2 fun hDigit => ?_
      have hNine := (toNat_of_isDigit hDigit).2
      omega
    · rintro rfl
      exact absurd hFrom (by decide)
  | zulu hName =>
    rintro c ⟨⟩
    rcases hName with rfl | rfl <;> decide
  | ahead hDistance =>
    rintro c ⟨⟩
    decide
  | behind hSign hDistance =>
    rintro c ⟨⟩
    rcases hSign with rfl | rfl <;> decide

theorem zone?_eq_some_iff : zone? cs = some (n, rest) ↔
    ∃ b zone, Blanks b ∧ ZoneSpelling n zone ∧ cs = b ++ (zone ++ rest) := by
  unfold zone?
  constructor
  · intro hRead
    obtain ⟨zone, hZone, hSplit⟩ := bareZone?_eq_some_iff.1 hRead
    obtain ⟨b, hb, hBlanks⟩ := exists_blanks_append cs
    exact ⟨b, zone, hb, hZone, by rw [← hSplit]; exact hBlanks⟩
  · rintro ⟨b, zone, hb, hZone, rfl⟩
    rw [dropWhile_isBlank_append hb fun c hc => (hZone.head? rest c hc).1]
    exact bareZone?_eq_some_iff.2 ⟨zone, hZone, rfl⟩

/-! ## Reading the whole -/

/-- What is behind white space can follow if white space can. -/
theorem head?_blanks_append {p : Char → Prop} (hBlank : ∀ c, isBlank c → p c) (hb : Blanks b)
    (hRest : ∀ c ∈ rest.head?, p c) : ∀ c ∈ (b ++ rest).head?, p c := by
  intro c hc
  cases b with
  | nil => exact hRest c hc
  | cons d b =>
      obtain rfl := Option.some.inj hc
      exact hBlank d (hb d List.mem_cons_self)

theorem isDigit_eq_false_of_isBlank {c : Char} (hBlank : isBlank c) : c.isDigit = false := by
  refine Bool.eq_false_iff.2 fun hDigit => ?_
  rw [isBlank_eq_false_of_isDigit hDigit] at hBlank
  cases hBlank

theorem reads_triple {α : Type} {first? : List Char → Option (α × List Char)}
    {form : α → List Char → Prop} (hFirst : Reads first? form (·.isDigit = false)) {mark : Char}
    (hBlank : isBlank mark = false) (hDigit : mark.isDigit = false) :
    Reads (triple? first? mark) (TripleSpelling form mark) (·.isDigit = false) where
  sound := by
    intro cs rest a hRead
    simp only [triple?, Option.bind_eq_bind, Option.bind_eq_some_iff, Prod.exists,
      afterMark?_eq_some_iff hBlank] at hRead
    obtain ⟨a, _, hRead₁, _, ⟨b, hb, rfl⟩, m, _, hRead₂, _, ⟨b', hb', rfl⟩, n, _, hRead₃, hEnd⟩ :=
      hRead
    cases hEnd
    obtain ⟨first, hFirst, rfl⟩ := hFirst.sound hRead₁
    obtain ⟨second, hSecond, hRest₂⟩ := (reads_number 2).sound hRead₂
    obtain ⟨third, hThird, hRest₃⟩ := (reads_number 2).sound hRead₃
    exact ⟨_, .intro hFirst hb hSecond hb' hThird, by simp [hRest₂, hRest₃]⟩
  complete := by
    rintro _ rest _ @⟨a, m, n, first, second, third, b, b', hForm, hb, hSecond, hb', hThird⟩ hRest
    have hMark {b : List Char} (hb : Blanks b) (cs : List Char) :
        (∀ c ∈ (b ++ mark :: cs).head?, c.isDigit = false) ∧
          afterMark? mark (b ++ mark :: cs) = some cs := by
      refine ⟨head?_blanks_append (fun _ => isDigit_eq_false_of_isBlank) hb ?_,
        (afterMark?_eq_some_iff hBlank).2 ⟨b, hb, rfl⟩⟩
      rintro c ⟨⟩
      exact hDigit
    have hRead₁ := hFirst.complete hForm (hMark hb (second ++ (b' ++ mark :: (third ++ rest)))).1
    have hRead₂ := (reads_number 2).complete hSecond (hMark hb' (third ++ rest)).1
    have hRead₃ := (reads_number 2).complete hThird hRest
    simp [triple?, hRead₁, hRead₂, hRead₃, (hMark hb _).2, (hMark hb' _).2]

theorem reads_date :
    Reads (triple? year? '-') (TripleSpelling YearSpelling '-') (·.isDigit = false) :=
  reads_triple reads_year (by decide) (by decide)

theorem reads_clock : Reads (triple? (number? 2) ':') (TripleSpelling (NumberSpelling 2) ':')
    (·.isDigit = false) :=
  reads_triple (reads_number 2) (by decide) (by decide)

theorem read?_eq_some_iff {t : LocalTime} : LocalTime.read? cs = some t ↔ Spelling t cs := by
  unfold LocalTime.read?
  simp only [Option.bind_eq_bind, Option.bind_eq_some_iff, Prod.exists, afterOneOf?_eq_some_iff,
    zone?_eq_some_iff, Option.ite_none_right_eq_some]
  constructor
  · rintro ⟨year, month, day, _, hDate, _, ⟨mark, hMark, rfl⟩, hour, minute, second, _, hClock,
      nanos, _, hFraction, ahead, b', ⟨b, zone, hb, hZone, rfl⟩, hb', hEnd⟩
    obtain ⟨date, hDate', rfl⟩ := reads_date.sound hDate
    obtain ⟨clock, hClock', rfl⟩ := reads_clock.sound hClock
    obtain ⟨fraction, hFraction', rfl⟩ := reads_fraction.sound hFraction
    obtain rfl := Option.some.inj hEnd
    exact .intro hDate' hMark hClock' hFraction' hb hZone (List.all_eq_true.1 hb')
  · rintro @⟨date, clock, fraction, zone, b, b', mark, hDate, hMark, hClock, hFraction, hb, hZone,
      hb'⟩
    have hEnd : ∀ c ∈ (b ++ (zone ++ b')).head?, c.isDigit = false ∧ c ≠ '.' := by
      refine head?_blanks_append (fun c hc => ⟨isDigit_eq_false_of_isBlank hc, ?_⟩) hb
        fun c hc => (hZone.head? b' c hc).2
      rintro rfl
      exact absurd hc (by decide)
    have hBehindClock := hFraction.head? fun c hc => (hEnd c hc).1
    have hBehindDate : ∀ c ∈ (mark :: (clock ++ (fraction ++ (b ++ (zone ++ b'))))).head?,
        c.isDigit = false := by
      rintro _ ⟨⟩
      have hMarks : ['T', 't', ' '].all fun c => c.isDigit = false := by decide
      exact of_decide_eq_true (List.all_eq_true.1 hMarks mark hMark)
    exact ⟨_, _, _, _, reads_date.complete hDate hBehindDate, _, ⟨mark, hMark, rfl⟩,
      _, _, _, _, reads_clock.complete hClock hBehindClock,
      _, _, reads_fraction.complete hFraction hEnd,
      _, b', ⟨b, zone, hb, hZone, rfl⟩, List.all_eq_true.2 hb', rfl⟩

theorem LocalTime.seconds_eq {t : LocalTime} (hSecond : t.second ≤ 60) : t.seconds =
    86400 * t.date.number + 3600 * t.hour + 60 * t.minute +
      if t.second = 60 then 59 else t.second := by
  unfold LocalTime.seconds
  split <;> omega

theorem LocalTime.nanos_moment (t : LocalTime) :
    t.moment.nanos = t.nanos + if t.second = 60 then 10 ^ 9 else 0 := by
  unfold LocalTime.moment
  split <;> rfl

/-- A time denotes a moment iff there is such a time, the moment is the one that is computed, and
both have a place in the calendar of timestamps. -/
theorem denotes_iff {t : LocalTime} {moment : Timestamp} : Denotes t moment ↔
    (t.Valid ∧ Representable t.seconds ∧ Representable t.moment.seconds) ∧ t.moment = moment := by
  constructor
  · rintro ⟨hTime, ⟨n, hDay, hSeconds⟩, hNanos, hRepresentable⟩
    obtain ⟨hDate, rfl⟩ := Calendar.numbered_iff.1 hDay
    rw [← LocalTime.seconds_eq hTime.2.2] at hSeconds
    have hMoment : t.moment = moment := by
      obtain ⟨seconds, nanos⟩ := moment
      obtain rfl : seconds = t.seconds - t.ahead := eq_sub_of_add_eq hSeconds
      obtain rfl : nanos = _ := hNanos
      rw [← t.nanos_moment]
      rfl
    rw [hSeconds, ← hMoment] at hRepresentable
    exact ⟨⟨⟨hDate, hTime⟩, hRepresentable⟩, hMoment⟩
  · rintro ⟨⟨⟨hDate, hTime⟩, hRepresentable⟩, rfl⟩
    have hSeconds : t.moment.seconds + t.ahead = t.seconds := sub_add_cancel t.seconds t.ahead
    have hDay := Calendar.numbered_iff.2 ⟨hDate, rfl⟩
    refine ⟨hTime, ⟨_, hDay, ?_⟩, t.nanos_moment, ?_⟩
    · rw [hSeconds, LocalTime.seconds_eq hTime.2.2]
    · rw [hSeconds]
      exact hRepresentable

/-- A text is read as the moment that it spells, and as none if it spells none. -/
theorem parse?_eq_some_iff {s : String} {moment : Timestamp} :
    parse? s = some moment ↔ Spells s moment := by
  unfold parse? Spells
  simp only [Option.bind_eq_bind, Option.bind_eq_some_iff, Option.ite_none_right_eq_some,
    read?_eq_some_iff, denotes_iff, Option.some.injEq]

/-- A leap second at the end of a year, an hour later on the clocks of the place. -/
example : parse? "2017-01-01t00:59:60.25 +01" = none ∧
    parse? "2017-01-01t00:59:60.25 +01:00" = some ⟨1483228799, 1250000000⟩ := by
  decide +kernel

end PackageManager.Timestamp
