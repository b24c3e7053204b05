import PackageManager.Text.Decimal

/-!
# Strings in TOML

A string is written between double quotes, where a backslash escapes, or between single quotes,
where nothing does; either quote may be tripled, and the string may then extend over several
lines. Line ends are single line feeds by the time a document is read here.
-/

namespace PackageManager.Toml

/-- The characters that may stand unescaped in a string of one line, and in comments. -/
def isPlain (c : Char) : Bool := c = '\t' || (0x20 ≤ c.toNat && c.toNat ≠ 0x7F)

/-- The character with the code point that some hexadecimal digits spell. -/
def codePoint? (ds : List Char) : Option Char := do
  let n := (← ds.mapM Text.hexValue?).foldl (fun n d => n * 16 + d) 0
  if n < 0x110000 ∧ ¬(0xD800 ≤ n ∧ n ≤ 0xDFFF) then some (Char.ofNat n) else none

/-- The character that follows a backslash, and what follows it. -/
def escape? : List Char → Option (Char × List Char)
  | 'b' :: cs => some ('\x08', cs)
  | 't' :: cs => some ('\t', cs)
  | 'n' :: cs => some ('\n', cs)
  | 'f' :: cs => some ('\x0c', cs)
  | 'r' :: cs => some ('\r', cs)
  | '"' :: cs => some ('"', cs)
  | '\\' :: cs => some ('\\', cs)
  | 'u' :: cs =>
    if cs.length < 4 then none else (codePoint? (cs.take 4)).map fun c => (c, cs.drop 4)
  | 'U' :: cs =>
    if cs.length < 8 then none else (codePoint? (cs.take 8)).map fun c => (c, cs.drop 8)
  | _ => none

/-- What follows the line end after a backslash and the blanks around it, if there is one: an
escaped line end stands for nothing, nor do the blanks and line ends after it. -/
def escapedLineEnd? (cs : List Char) : Option (List Char) :=
  match cs.dropWhile fun c => c = ' ' || c = '\t' with
  | '\n' :: rest => some (rest.dropWhile fun c => c = ' ' || c = '\t' || c = '\n')
  | _ => none

/-- What a run of quotes means inside a string that is closed by three of them: the quotes that
belong to the string, and whether the run closes it. -/
def quoteRun (n : Nat) : Option (Nat × Bool) :=
  if n < 3 then some (n, false) else if n ≤ 5 then some (n - 3, true) else none

/-- A string between double quotes from after the opening one. -/
def basicBody : Nat → List Char → Option (List Char × List Char)
  | 0, _ => none
  | _ + 1, '"' :: cs => some ([], cs)
  | fuel + 1, '\\' :: cs => do
    let (c, cs) ← escape? cs
    let (body, rest) ← basicBody fuel cs
    return (c :: body, rest)
  | fuel + 1, c :: cs =>
    if isPlain c then do
      let (body, rest) ← basicBody fuel cs
      return (c :: body, rest)
    else none
  | _ + 1, [] => none

/-- A string between single quotes from after the opening one. -/
def literalBody (cs : List Char) : Option (List Char × List Char) :=
  let body := cs.takeWhile fun c => isPlain c && c ≠ '\''
  match cs.dropWhile fun c => isPlain c && c ≠ '\'' with
  | '\'' :: rest => some (body, rest)
  | _ => none

/-- A string between tripled quotes, where a backslash escapes if the quotes are double. -/
def multilineBody (quote : Char) : Nat → List Char → Option (List Char × List Char)
  | 0, _ => none
  | _ + 1, [] => none
  | fuel + 1, c :: cs =>
    if c = quote then do
      let run := (c :: cs).takeWhile (· = quote)
      let rest := (c :: cs).dropWhile (· = quote)
      let (kept, closes) ← quoteRun run.length
      if closes then some (run.take kept, rest)
      else do
        let (body, rest) ← multilineBody quote fuel rest
        return (run ++ body, rest)
    else if c = '\\' ∧ quote = '"' then
      match escapedLineEnd? cs with
      | some cs => multilineBody quote fuel cs
      | none => do
        let (e, cs) ← escape? cs
        let (body, rest) ← multilineBody quote fuel cs
        return (e :: body, rest)
    else if isPlain c || c = '\n' then do
      let (body, rest) ← multilineBody quote fuel cs
      return (c :: body, rest)
    else none

/-- A line end right after the opening quotes is not part of the string. -/
def skipFirstLineEnd : List Char → List Char
  | '\n' :: cs => cs
  | cs => cs

/-- The string of one line at the beginning of a text, and what follows it. -/
def lineString? : List Char → Option (List Char × List Char)
  | '"' :: cs => basicBody (cs.length + 1) cs
  | '\'' :: cs => literalBody cs
  | _ => none

/-- The string at the beginning of a text, and what follows it. -/
def string? : List Char → Option (List Char × List Char)
  | '"' :: '"' :: '"' :: cs => multilineBody '"' (cs.length + 1) (skipFirstLineEnd cs)
  | '\'' :: '\'' :: '\'' :: cs => multilineBody '\'' (cs.length + 1) (skipFirstLineEnd cs)
  | cs => lineString? cs

end PackageManager.Toml
