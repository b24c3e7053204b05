import PackageManager.Document.Datum
import PackageManager.Text.Decimal

/-!
# JSON

The reader follows the grammar of JSON without extensions. It goes down one level of nesting or
past one character with every step, so a bound on the number of steps computed from the length of
the text never stops it early. Escaped characters outside the Basic Multilingual Plane are written
as two halves. A half that stands alone makes no text of the string it stands in, and no table of
the object that has this string as a key; such a value is well-formed, but there is nothing to read
in it. The writer leaves out all optional blanks.
-/

namespace PackageManager.Json

/-! ## Reading -/

/-- The text without the blanks it starts with. -/
def skipBlanks (cs : List Char) : List Char :=
  cs.dropWhile fun c => c = ' ' || c = '\n' || c = '\t' || c = '\r'

/-- The 16-bit unit that four hexadecimal digits spell. -/
def unit? : List Char → Option (Nat × List Char)
  | a :: b :: c :: d :: cs => do
    let n := [← Text.hexValue? a, ← Text.hexValue? b, ← Text.hexValue? c, ← Text.hexValue? d]
    return (n.foldl (fun n d => n * 16 + d) 0, cs)
  | _ => none

/-- The character that follows `\u`, which may need a second unit, and what follows it; no
character, if the unit is a half without the other one after it. -/
def escapedUnit? (cs : List Char) : Option (Option Char × List Char) := do
  let (n, cs) ← unit? cs
  if 0xDC00 ≤ n ∧ n ≤ 0xDFFF then some (none, cs)
  else if 0xD800 ≤ n ∧ n ≤ 0xDBFF then
    match cs with
    | '\\' :: 'u' :: second => do
      let (m, rest) ← unit? second
      if 0xDC00 ≤ m ∧ m ≤ 0xDFFF then
        some (some (Char.ofNat (0x10000 + (n - 0xD800) * 0x400 + (m - 0xDC00))), rest)
      else some (none, cs)
    | _ => some (none, cs)
  else some (some (Char.ofNat n), cs)

/-- The character that a letter after a backslash stands for. -/
def escapedLetter? : Char → Option Char
  | '"' => some '"'
  | '\\' => some '\\'
  | '/' => some '/'
  | 'b' => some '\x08'
  | 'f' => some '\x0c'
  | 'n' => some '\n'
  | 'r' => some '\r'
  | 't' => some '\t'
  | _ => none

/-- The characters up to the closing quote, where halves are none, and what follows it. -/
def stringBody : Nat → List Char → Option (List (Option Char) × List Char)
  | 0, _ => none
  | _ + 1, '"' :: cs => some ([], cs)
  | fuel + 1, '\\' :: 'u' :: cs => do
    let (c, cs) ← escapedUnit? cs
    let (body, rest) ← stringBody fuel cs
    return (c :: body, rest)
  | fuel + 1, '\\' :: e :: cs => do
    let c ← escapedLetter? e
    let (body, rest) ← stringBody fuel cs
    return (some c :: body, rest)
  | fuel + 1, c :: cs =>
    if c.toNat < 0x20 ∨ c = '\\' then none
    else do
      let (body, rest) ← stringBody fuel cs
      return (some c :: body, rest)
  | _ + 1, [] => none

/-- The text of the string whose opening quote has been read, if it has one, and what follows the
string. -/
def string? (cs : List Char) : Option (Option String × List Char) :=
  (stringBody (cs.length + 1) cs).map fun p => ((p.1.mapM id).map String.ofList, p.2)

/-- What has been read of a text, of which `rest` is left. -/
def written (cs rest : List Char) : String := String.ofList (cs.take (cs.length - rest.length))

/-- The table with entries whose keys all have a text. -/
def table? (entries : List (Option String × Datum)) : Option Datum :=
  let named : Option (List (String × Datum)) :=
    entries.mapM fun e => e.1.map fun key => (key, e.2)
  named.map .table

/-- The fraction and the exponent of a number, if it has any, as they are written. -/
def numberTail (cs : List Char) : Option (List Char × List Char) := do
  let (fraction, cs) ←
    match cs with
    | '.' :: cs => (Text.someDigits cs).map fun p => ('.' :: p.1, p.2)
    | cs => some ([], cs)
  match cs with
  | e :: cs' =>
    if e = 'e' ∨ e = 'E' then
      let (sign, cs') :=
        match cs' with
        | '+' :: cs' => (['+'], cs')
        | '-' :: cs' => (['-'], cs')
        | cs' => ([], cs')
      (Text.someDigits cs').map fun p => (fraction ++ e :: sign ++ p.1, p.2)
    else some (fraction, cs)
  | [] => some (fraction, [])

/-- The number at the beginning of a text. Minus zero is not an integer. -/
def number? (cs : List Char) : Option (Datum × List Char) := do
  let (negative, cs) :=
    match cs with
    | '-' :: cs => (true, cs)
    | cs => (false, cs)
  let (ds, cs) ← Text.someDigits cs
  if ds.head? = some '0' ∧ ds ≠ ['0'] then none
  else
    let (tail, cs) ← numberTail cs
    let n := Text.digitsValue ds
    if tail.isEmpty ∧ ¬(negative ∧ n = 0) then
      some (.integer (if negative then -n else n), cs)
    else some (.verbatim (String.ofList ((if negative then ['-'] else []) ++ ds ++ tail)), cs)

mutual

/-- The value at the beginning of a text. -/
def value? : Nat → List Char → Option (Datum × List Char)
  | 0, _ => none
  | fuel + 1, cs =>
    match skipBlanks cs with
    | 'n' :: 'u' :: 'l' :: 'l' :: cs => some (.null, cs)
    | 't' :: 'r' :: 'u' :: 'e' :: cs => some (.bool true, cs)
    | 'f' :: 'a' :: 'l' :: 's' :: 'e' :: cs => some (.bool false, cs)
    | '"' :: cs =>
      (string? cs).map fun p => ((p.1.map .text).getD (.verbatim (written ('"' :: cs) p.2)), p.2)
    | '[' :: cs =>
      match skipBlanks cs with
      | ']' :: cs => some (.list [], cs)
      | cs => (items? fuel cs).map fun p => (.list p.1, p.2)
    | '{' :: cs =>
      match skipBlanks cs with
      | '}' :: cs => some (.table [], cs)
      | cs' =>
        (entries? fuel cs').map fun p =>
          ((table? p.1).getD (.verbatim (written ('{' :: cs) p.2)), p.2)
    | cs => number? cs

/-- The values up to the closing bracket, of which there is at least one. -/
def items? : Nat → List Char → Option (List Datum × List Char)
  | 0, _ => none
  | fuel + 1, cs => do
    let (d, cs) ← value? fuel cs
    match skipBlanks cs with
    | ',' :: cs => (items? fuel cs).map fun p => (d :: p.1, p.2)
    | ']' :: cs => some ([d], cs)
    | _ => none

/-- The entries up to the closing brace, of which there is at least one. -/
def entries? : Nat → List Char → Option (List (Option String × Datum) × List Char)
  | 0, _ => none
  | fuel + 1, cs =>
    match skipBlanks cs with
    | '"' :: cs => do
      let (key, cs) ← string? cs
      match skipBlanks cs with
      | ':' :: cs => do
        let (d, cs) ← value? fuel cs
        match skipBlanks cs with
        | ',' :: cs => (entries? fuel cs).map fun p => ((key, d) :: p.1, p.2)
        | '}' :: cs => some ([(key, d)], cs)
        | _ => none
      | _ => none
    | _ => none

end

/-- The content of a JSON document. -/
def parse? (s : String) : Option Datum :=
  let cs := s.toList
  match value? (2 * cs.length + 2) cs with
  | some (d, rest) => if (skipBlanks rest).isEmpty then some d else none
  | none => none

/-! ## Writing -/

/-- A character of a string as it is written. -/
def writeChar (c : Char) : List Char :=
  match c with
  | '"' => ['\\', '"']
  | '\\' => ['\\', '\\']
  | '\x08' => ['\\', 'b']
  | '\x0c' => ['\\', 'f']
  | '\n' => ['\\', 'n']
  | '\r' => ['\\', 'r']
  | '\t' => ['\\', 't']
  | c =>
    if c.toNat < 0x20 then
      ['\\', 'u', '0', '0', Nat.digitChar (c.toNat / 16), Nat.digitChar (c.toNat % 16)]
    else [c]

/-- A string as it is written. -/
def writeString (s : String) : List Char := '"' :: s.toList.flatMap writeChar ++ ['"']

mutual

/-- A value as it is written. -/
def write : Datum → List Char
  | .null => ['n', 'u', 'l', 'l']
  | .bool true => ['t', 'r', 'u', 'e']
  | .bool false => ['f', 'a', 'l', 's', 'e']
  | .integer n => (if n < 0 then ['-'] else []) ++ Text.digits n.natAbs
  | .verbatim written => written.toList
  | .text s => writeString s
  | .list items => '[' :: writeItems items ++ [']']
  | .table entries => '{' :: writeEntries entries ++ ['}']

/-- Values with commas between them. -/
def writeItems : List Datum → List Char
  | [] => []
  | [d] => write d
  | d :: e :: rest => write d ++ ',' :: writeItems (e :: rest)

/-- Entries with commas between them. -/
def writeEntries : List (String × Datum) → List Char
  | [] => []
  | [(key, d)] => writeString key ++ ':' :: write d
  | (key, d) :: e :: rest => writeString key ++ ':' :: (write d ++ ',' :: writeEntries (e :: rest))

end

/-- The text of a JSON document. -/
def print (d : Datum) : String := String.ofList (write d)

end PackageManager.Json
