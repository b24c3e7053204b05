import PackageManager.Text.Cut
import PackageManager.Text.Visible
import PackageManager.Version

/-!
# Reading versions

A version text is three decimal components without leading zeros, with points between them. The
reader knows the longer notation of semantic versioning, in which a pre-release and build metadata
may follow, and goes through it completely before it refuses such a text: a text with a malformed
suffix is reported for the malformation and not for having a suffix.

`Version.parse` is the only way from a text to a version, so everything that holds a written
version, from package documents to manifests, accepts exactly the canonical texts.
-/

namespace PackageManager.Version

/-- The parts of a version text. -/
inductive Part
  | major
  | minor
  | patch
  | prerelease
  | build
deriving DecidableEq

/-- What a part is called in a message. -/
def Part.name : Part → String
  | .major => "major version number"
  | .minor => "minor version number"
  | .patch => "patch version number"
  | .prerelease => "pre-release identifier"
  | .build => "build metadata"

/-- Why a text is no version. -/
inductive Flaw
  /-- There is no text at all. -/
  | empty
  /-- The text ends where a part should go on. -/
  | endsIn (part : Part)
  /-- A number starts with something else than a digit. -/
  | notADigit (part : Part) (found : Char)
  /-- A part is followed by something that cannot follow it. -/
  | trailing (part : Part) (found : Char)
  /-- A number of more than one digit starts with zero. -/
  | leadingZero (part : Part)
  /-- A number does not fit into 64 bits. -/
  | tooLarge (part : Part)
  /-- An identifier between points has no character. -/
  | emptySegment (part : Part)
  /-- The text is a version with a pre-release or build metadata. -/
  | suffix
  /-- A component does not fit into 32 bits. -/
  | outOfRange
deriving DecidableEq

/-- The wording of a flaw. -/
def Flaw.message : Flaw → String
  | .empty => "empty string, expected a semver version"
  | .endsIn part => "unexpected end of input while parsing " ++ part.name
  | .notADigit part c =>
    "unexpected character " ++ Text.quoteChar c ++ " while parsing " ++ part.name
  | .trailing part c => "unexpected character " ++ Text.quoteChar c ++ " after " ++ part.name
  | .leadingZero part => "invalid leading zero in " ++ part.name
  | .tooLarge part => "value of " ++ part.name ++ " exceeds u64::MAX"
  | .emptySegment part => "empty identifier segment in " ++ part.name
  | .suffix => "pre-release and build metadata are not supported"
  | .outOfRange => "component is out of range"

/-- A text that is no version. -/
structure Malformed where
  text : String
  flaw : Flaw
deriving DecidableEq

/-- The wording of a refused version text. -/
def Malformed.message (m : Malformed) : String :=
  "invalid package version '" ++ m.text ++ "': " ++ m.flaw.message

/-- The number at the beginning of a text, and what follows it. -/
def number (part : Part) (cs : List Char) : Except Flaw (Nat × List Char) :=
  let rest := cs.dropWhile Char.isDigit
  match cs.takeWhile Char.isDigit with
  | [] =>
    match rest with
    | [] => .error (.endsIn part)
    | c :: _ => .error (.notADigit part c)
  | d :: ds =>
    if d = '0' ∧ ds ≠ [] then .error (.leadingZero part)
    else if UInt64.size ≤ Text.digitsValue (d :: ds) then .error (.tooLarge part)
    else .ok (Text.digitsValue (d :: ds), rest)

/-- What follows the point that has to follow a part. -/
def afterPoint (part : Part) : List Char → Except Flaw (List Char)
  | '.' :: cs => .ok cs
  | c :: _ => .error (.trailing part c)
  | [] => .error (.endsIn part)

/-- The characters of which identifiers are made. -/
def isIdentifierChar (c : Char) : Bool := c.isAlphanum || c = '-'

/-- Whether one identifier between points may stand where it does: numeric identifiers of a
pre-release have no leading zero. -/
def checkSegment (part : Part) (segment : List Char) : Except Flaw Unit :=
  if segment = [] then .error (.emptySegment part)
  else if part = .prerelease ∧ segment.all Char.isDigit ∧ 1 < segment.length ∧
      segment.head? = some '0' then .error (.leadingZero part)
  else .ok ()

/-- The identifiers at the beginning of a text are in order; the answer is what follows them. -/
def identifiers (part : Part) (cs : List Char) : Except Flaw (List Char) := do
  let inside := fun c => isIdentifierChar c || c = '.'
  ((cs.takeWhile inside).splitOn '.').forM (checkSegment part)
  return cs.dropWhile inside

/-- What follows a suffix that starts with `mark`, if the text has one. -/
def suffixAfter (mark : Char) (part : Part) : List Char → Except Flaw (Option (List Char))
  | c :: cs => if c = mark then (identifiers part cs).map some else .ok none
  | [] => .ok none

/-- The component with a given value. -/
def component (n : Nat) : Except Flaw UInt32 :=
  if n < UInt32.size then .ok (UInt32.ofNat n) else .error .outOfRange

/-- The version that a list of characters spells. -/
def ofChars (cs : List Char) : Except Flaw Version := do
  if cs.isEmpty then throw .empty
  let (major, cs) ← number .major cs
  let cs ← afterPoint .major cs
  let (minor, cs) ← number .minor cs
  let cs ← afterPoint .minor cs
  let (patch, cs) ← number .patch cs
  let afterPre ← suffixAfter '-' .prerelease cs
  let afterBuild ← suffixAfter '+' .build (afterPre.getD cs)
  let last := if afterBuild.isSome then Part.build
    else if afterPre.isSome then Part.prerelease else Part.patch
  match afterBuild.getD (afterPre.getD cs) with
  | c :: _ => throw (.trailing last c)
  | [] =>
    if afterPre.isSome || afterBuild.isSome then throw .suffix
    return ⟨← component major, ← component minor, ← component patch⟩

/-- The version that a text spells. -/
def parse (s : String) : Except Malformed Version :=
  (ofChars s.toList).mapError fun flaw => ⟨s, flaw⟩

end PackageManager.Version
