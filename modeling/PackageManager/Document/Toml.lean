import PackageManager.Document.Toml.Quoted
import PackageManager.Document.Toml.Scalar
import PackageManager.Document.Toml.Tree

/-!
# TOML

The reader follows version 1.0 of the format. A document is a sequence of lines, each of which
holds a header, a key with a value, or neither; values in brackets may extend over several lines.
Nesting and dotted keys are limited in depth, as nothing that is written by hand comes near the
limit.
-/

namespace PackageManager.Toml

/-- Neither values nor dotted keys reach this depth. -/
def depthLimit : Nat := 80

/-- The text without the blanks it starts with. -/
def skipBlanks (cs : List Char) : List Char := cs.dropWhile fun c => c = ' ' || c = '\t'

/-- The text after the blanks, line ends and comments that it starts with. -/
def skipLines (inComment : Bool) : List Char → Option (List Char)
  | [] => some []
  | c :: cs =>
    if c = '\n' then skipLines false cs
    else if inComment then if isPlain c then skipLines true cs else none
    else if c = ' ' ∨ c = '\t' then skipLines false cs
    else if c = '#' then skipLines true cs
    else some (c :: cs)

/-- The text from the end of the line, if nothing but blanks and a comment stands before it. -/
def lineEnd? (cs : List Char) : Option (List Char) :=
  match skipBlanks cs with
  | [] => some []
  | '\n' :: rest => some rest
  | '#' :: comment =>
    match comment.dropWhile isPlain with
    | [] => some []
    | '\n' :: rest => some rest
    | _ => none
  | _ => none

/-! ## Keys -/

/-- The characters of a key without quotes. -/
def isBareKeyChar (c : Char) : Bool := c.isAlphanum || c = '_' || c = '-'

/-- The part of a key at the beginning of a text, and what follows it. -/
def keyPart? (cs : List Char) : Option (String × List Char) :=
  match cs with
  | '"' :: _ | '\'' :: _ => (lineString? cs).map fun p => (String.ofList p.1, p.2)
  | cs =>
    match cs.takeWhile isBareKeyChar with
    | [] => none
    | bare => some (String.ofList bare, cs.dropWhile isBareKeyChar)

/-- The parts of a key at the beginning of a text, and what follows it. -/
def keyParts? : Nat → List Char → Option (List String × List Char)
  | 0, _ => none
  | fuel + 1, cs => do
    let (part, cs) ← keyPart? (skipBlanks cs)
    match skipBlanks cs with
    | '.' :: cs => (keyParts? fuel cs).map fun p => (part :: p.1, p.2)
    | cs => some ([part], cs)

/-- The key at the beginning of a text: the parts before the last one, the last one, and what
follows the key. -/
def key? (cs : List Char) : Option (List String × String × List Char) := do
  let (parts, cs) ← keyParts? (cs.length + 1) cs
  if depthLimit ≤ parts.length then none
  else return (parts.dropLast, ← parts.getLast?, cs)

/-! ## Values -/

mutual

/-- The value at the beginning of a text, and what follows it, at a given depth of nesting. -/
def value? : Nat → Nat → List Char → Option (Datum × List Char)
  | 0, _, _ => none
  | fuel + 1, depth, cs =>
    match cs with
    | '"' :: _ | '\'' :: _ => (string? cs).map fun p => (.text (String.ofList p.1), p.2)
    | '[' :: cs =>
      if depth + 1 < depthLimit then
        (items? fuel (depth + 1) cs).map fun p => (.list p.1, p.2)
      else none
    | '{' :: cs =>
      if depth + 1 < depthLimit then
        match skipBlanks cs with
        | '}' :: cs => some (.table [], cs)
        | cs => (inlineEntries? fuel (depth + 1) [] cs).map fun p => (.table (entriesData p.1), p.2)
      else none
    | cs => scalar? cs

/-- The values up to the closing bracket. -/
def items? : Nat → Nat → List Char → Option (List Datum × List Char)
  | 0, _, _ => none
  | fuel + 1, depth, cs => do
    match ← skipLines false cs with
    | ']' :: cs => some ([], cs)
    | cs => do
      let (d, cs) ← value? fuel depth cs
      match ← skipLines false cs with
      | ',' :: cs => (items? fuel depth cs).map fun p => (d :: p.1, p.2)
      | ']' :: cs => some ([d], cs)
      | _ => none

/-- The entries up to the closing brace, added to those before them. There is at least one. -/
def inlineEntries? : Nat → Nat → Entries → List Char → Option (Entries × List Char)
  | 0, _, _, _ => none
  | fuel + 1, depth, before, cs => do
    let (path, key, cs) ← key? cs
    let cs ← Text.afterOneOf? ['='] cs
    let (d, cs) ← value? fuel depth (skipBlanks cs)
    let entries ← before.assign path key d
    match skipBlanks cs with
    | ',' :: cs => inlineEntries? fuel depth entries cs
    | '}' :: cs => some (entries, cs)
    | _ => none

end

/-! ## Documents -/

/-- The tree of a document and the keys of the header under which the next line stands. -/
structure Reading where
  entries : Entries := []
  header : List String := []

/-- The reading after a header. -/
def Reading.openHeader (r : Reading) (path : List String) (key : String)
    (add : String → Entries → Option Entries) : Option Reading := do
  let entries ← r.entries.change false (fun _ entries => add key entries) .header path
  return ⟨entries, path ++ [key]⟩

/-- The reading after a key with a value. -/
def Reading.assign (r : Reading) (path : List String) (key : String) (d : Datum) :
    Option Reading := do
  let entries ← r.entries.change false (fun _ entries => entries.assign path key d) .header r.header
  return { r with entries }

/-- The reading after one line that is not empty, and what follows its header or value. -/
def statement? (r : Reading) (cs : List Char) : Option (Reading × List Char) := do
  match cs with
  | '[' :: '[' :: cs =>
    let (path, key, cs) ← key? cs
    let cs ← Text.afterOneOf? [']'] (← Text.afterOneOf? [']'] cs)
    return (← r.openHeader path key Entries.openElement, cs)
  | '[' :: cs =>
    let (path, key, cs) ← key? cs
    let cs ← Text.afterOneOf? [']'] cs
    return (← r.openHeader path key Entries.openTable, cs)
  | cs =>
    let (path, key, cs) ← key? cs
    let cs ← Text.afterOneOf? ['='] cs
    let (d, cs) ← value? (2 * cs.length + 2) 0 (skipBlanks cs)
    return (← r.assign path key d, cs)

/-- The reading at the end of a text. -/
def lines? : Nat → Reading → List Char → Option Reading
  | 0, _, _ => none
  | fuel + 1, r, cs => do
    match ← skipLines false cs with
    | [] => some r
    | cs =>
      let (r, cs) ← statement? r cs
      lines? fuel r (← lineEnd? cs)

/-- The text with every line end a single line feed. -/
def unifyLineEnds : List Char → List Char
  | '\r' :: '\n' :: cs => '\n' :: unifyLineEnds cs
  | c :: cs => c :: unifyLineEnds cs
  | [] => []

/-- The content of a TOML document. A byte order mark may stand before it. -/
def parse? (s : String) : Option Datum :=
  let cs :=
    match s.toList with
    | '\uFEFF' :: cs => cs
    | cs => cs
  let cs := unifyLineEnds cs
  (lines? (cs.length + 1) {} cs).map fun r => .table (entriesData r.entries)

end PackageManager.Toml
