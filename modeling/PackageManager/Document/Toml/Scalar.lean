import PackageManager.Calendar
import PackageManager.Document.Datum
import PackageManager.Text.Cut
import PackageManager.Text.Decimal

/-!
# Numbers, dates and truth values in TOML

Everything that is not a string, an array or a table is one token of letters, digits and a few
signs; only the blank between a date and a time needs a second look. Each function here decides
whether a whole token has one of the forms.
-/

namespace PackageManager.Toml

/-- The characters of a token. -/
def isTokenChar (c : Char) : Bool := c.isAlphanum || ['+', '-', '_', '.', ':'].contains c

/-! ## Numbers -/

/-- The digits of a text in which single underscores may stand between digits. -/
def grouped? (isDigit : Char → Bool) (cs : List Char) : Option (List Char) :=
  let groups := cs.splitOn '_'
  if groups.all fun g => !g.isEmpty && g.all isDigit then some groups.flatten else none

/-- The sign of a number, and what follows it. -/
def cutSign : List Char → Option Char × List Char
  | '+' :: cs => (some '+', cs)
  | '-' :: cs => (some '-', cs)
  | cs => (none, cs)

/-- Digits in groups without a superfluous leading zero. -/
def wholePart? (cs : List Char) : Option (List Char) := do
  let ds ← grouped? Char.isDigit cs
  if ds.head? = some '0' ∧ ds ≠ ['0'] then none else some ds

/-- The value of digits in a base of at most sixteen. -/
def valueIn (base : Nat) (ds : List Char) : Option Nat := do
  let values ← ds.mapM Text.hexValue?
  if values.all (· < base) then some (values.foldl (fun n d => n * base + d) 0) else none

/-- The integer that a token spells, within 64 bits. -/
def integer? (token : List Char) : Option Int :=
  let prefixed := fun base ds => do
    let n ← valueIn base (← grouped? (fun c => (Text.hexValue? c).isSome) ds)
    if n < UInt64.size / 2 then some (n : Int) else none
  match token with
  | '0' :: 'x' :: ds => prefixed 16 ds
  | '0' :: 'o' :: ds => prefixed 8 ds
  | '0' :: 'b' :: ds => prefixed 2 ds
  | token => do
    let (sign, cs) := cutSign token
    let n := Text.digitsValue (← wholePart? cs)
    if sign = some '-' then if n ≤ UInt64.size / 2 then some (-n) else none
    else if n < UInt64.size / 2 then some n else none

/-- Whether `m * 10 ^ e` is so large that the nearest double-precision number is infinite. -/
def isBeyondDouble (m : Nat) (e : Int) : Bool :=
  let limit := Nat.pow 2 1024 - Nat.pow 2 970
  let magnitude := (Text.digits m).length + e
  if m = 0 ∨ magnitude < 308 then false
  else if 310 < magnitude then true
  else if 0 ≤ e then limit ≤ m * Nat.pow 10 e.toNat
  else limit * Nat.pow 10 (-e).toNat ≤ m

/-- Whether a token is a number with a fraction or an exponent, or one of the words for what is
no number. A positive number must not be infinite. -/
def isFraction (token : List Char) : Bool :=
  let (sign, cs) := cutSign token
  if cs = ['i', 'n', 'f'] ∨ cs = ['n', 'a', 'n'] then true
  else
    let mantissa := cs.takeWhile fun c => c ≠ 'e' ∧ c ≠ 'E'
    let exponent? := (cs.dropWhile fun c => c ≠ 'e' ∧ c ≠ 'E').tail?
    let whole := mantissa.takeWhile (· ≠ '.')
    let decimals? := (mantissa.dropWhile (· ≠ '.')).tail?
    let parts : Option (List Char × List Char × Int) := do
      let whole ← wholePart? whole
      let decimals ← decimals?.elim (some []) (grouped? Char.isDigit)
      let exponent ← exponent?.elim (some 0) fun e => do
        let (sign, ds) := cutSign e
        let n : Int := Text.digitsValue (← grouped? Char.isDigit ds)
        some (if sign = some '-' then -n else n)
      return (whole, decimals, exponent)
    match parts with
    | some (whole, decimals, exponent) =>
      (decimals?.isSome || exponent?.isSome) &&
        (sign = some '-' || !isBeyondDouble (Text.digitsValue (whole ++ decimals))
          (exponent - decimals.length))
    | none => false

/-! ## Dates and times -/

/-- What follows a date. -/
def date? (cs : List Char) : Option (List Char) := do
  let (year, cs) ← Text.fixedNumber? 4 cs
  let (month, cs) ← Text.fixedNumber? 2 (← Text.afterOneOf? ['-'] cs)
  let (day, cs) ← Text.fixedNumber? 2 (← Text.afterOneOf? ['-'] cs)
  if 1 ≤ month ∧ month ≤ 12 ∧ 1 ≤ day ∧ day ≤ Calendar.monthLength year month then some cs else none

/-- What follows a time of day. -/
def time? (cs : List Char) : Option (List Char) := do
  let (hour, cs) ← Text.fixedNumber? 2 cs
  let (minute, cs) ← Text.fixedNumber? 2 (← Text.afterOneOf? [':'] cs)
  let (second, cs) ← Text.fixedNumber? 2 (← Text.afterOneOf? [':'] cs)
  if hour ≤ 23 ∧ minute ≤ 59 ∧ second ≤ 60 then
    match cs with
    | '.' :: d :: cs =>
      if d.isDigit then some (cs.dropWhile Char.isDigit) else none
    | '.' :: [] => none
    | cs => some cs
  else none

/-- Whether a text is a distance from universal time. -/
def isOffset : List Char → Bool
  | ['Z'] | ['z'] => true
  | sign :: cs =>
    (sign = '+' || sign = '-') &&
      (do
        let (hour, cs) ← Text.fixedNumber? 2 cs
        let (minute, cs) ← Text.fixedNumber? 2 (← Text.afterOneOf? [':'] cs)
        some (hour ≤ 23 && minute ≤ 59 && cs.isEmpty) : Option Bool).getD false
  | [] => false

/-- Whether a text is a time of day, with or without a distance from universal time. -/
def isTimeWithOffset (cs : List Char) : Bool :=
  match time? cs with
  | some rest => rest.isEmpty || isOffset rest
  | none => false

/-- Whether a token is a date, a time of day, or both. -/
def isDateTime (token : List Char) : Bool :=
  match date? token with
  | some [] => true
  | some (c :: rest) => (c = 'T' || c = 't' || c = ' ') && isTimeWithOffset rest
  | none => (time? token).elim false List.isEmpty

/-! ## Tokens -/

/-- A date or time stands in a document as a table with one reserved key. -/
def dateTimeDatum (token : List Char) : Datum :=
  .table [("$__toml_private_datetime", .text (String.ofList token))]

/-- What a whole token stands for. -/
def ofToken? (token : List Char) : Option Datum :=
  if token = ['t', 'r', 'u', 'e'] then some (.bool true)
  else if token = ['f', 'a', 'l', 's', 'e'] then some (.bool false)
  else
    match integer? token with
    | some n => some (.integer n)
    | none =>
      if isFraction token then some (.verbatim (String.ofList token))
      else if isDateTime token then some (dateTimeDatum token)
      else none

/-- The token at the beginning of a text, and what follows it. A time belongs to the date before
it if one blank is between them. -/
def scalar? (cs : List Char) : Option (Datum × List Char) :=
  let token := cs.takeWhile isTokenChar
  let rest := cs.dropWhile isTokenChar
  match rest with
  | ' ' :: more =>
    let time := more.takeWhile isTokenChar
    if date? token = some [] ∧ isTimeWithOffset time then
      some (dateTimeDatum (token ++ ' ' :: time), more.dropWhile isTokenChar)
    else (ofToken? token).map fun d => (d, rest)
  | rest => (ofToken? token).map fun d => (d, rest)

end PackageManager.Toml
