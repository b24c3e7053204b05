import PackageManager.Text.Cut
import PackageManager.Text.Decimal
import PackageManager.Url.Percent

/-!
# Hosts

The host of a URL is a name or an Internet address. Schemes with a host in the sense of the web
know both kinds of address and fold names to lower case; in any other scheme a host is an opaque
text, apart from an address between brackets. Only ASCII host names are supported: a name that
decodes to anything else is refused, and the encoding of an international name is not looked into.
-/

namespace PackageManager.Url

/-- Why a text is no URL. -/
inductive Flaw
  | emptyHost
  | invalidPort
  | invalidIpv4
  | invalidIpv6
  | invalidDomain
  | invalidHostCharacter
  | relativeWithoutBase
  | relativeToOpaque
deriving DecidableEq

/-- The wording of a flaw. -/
def Flaw.message : Flaw → String
  | .emptyHost => "empty host"
  | .invalidPort => "invalid port number"
  | .invalidIpv4 => "invalid IPv4 address"
  | .invalidIpv6 => "invalid IPv6 address"
  | .invalidDomain => "invalid international domain name"
  | .invalidHostCharacter => "invalid domain character"
  | .relativeWithoutBase => "relative URL without a base"
  | .relativeToOpaque => "relative URL with a cannot-be-a-base base"

/-- A host. -/
inductive Host
  /-- A name; the empty name stands for the absence of a host. -/
  | name (text : String)
  /-- An Internet address of 32 bits. -/
  | ipv4 (address : Nat)
  /-- An Internet address of eight 16-bit pieces. -/
  | ipv6 (pieces : List Nat)
deriving DecidableEq

/-! ## Addresses of 32 bits -/

/-- The number that a part of an address spells in decimal, or in octal or hexadecimal after
`0` and `0x`. The outer option says whether it is a number, the inner one whether it has 32 bits. -/
def ipv4Number (cs : List Char) : Option (Option Nat) :=
  let (base, ds) : Nat × List Char :=
    match cs with
    | '0' :: 'x' :: rest | '0' :: 'X' :: rest => (16, rest)
    | '0' :: d :: rest => (8, d :: rest)
    | cs => (10, cs)
  if cs.isEmpty then none
  else
    match ds.mapM Text.hexValue? with
    | some values =>
      if values.all (· < base) then
        let n := values.foldl (fun n d => n * base + d) 0
        some (if n < UInt32.size then some n else none)
      else none
    | none => none

/-- Whether the last part of a name, a final point apart, is a number: such a name is an address
or nothing. -/
def endsInNumber (cs : List Char) : Bool :=
  let parts := (cs.splitOn '.').reverse
  let last? :=
    match parts with
    | [] :: last :: _ => some last
    | [[]] => none
    | last :: _ => some last
    | [] => none
  match last? with
  | some last => (!last.isEmpty && last.all Char.isDigit) || (ipv4Number last).isSome
  | none => false

/-- The address that up to four numbers spell: the last one fills the octets that are left. -/
def ipv4OfNumbers (numbers : List Nat) : Option Nat :=
  match numbers.reverse with
  | [] => none
  | last :: front =>
    if 4 < numbers.length ∨ Nat.pow 256 (5 - numbers.length) ≤ last ∨ front.any (255 < ·) then none
    else
      some (front.reverse.zipIdx.foldl (fun n p => n + p.1 * Nat.pow 256 (3 - p.2)) last)

/-- The address that a text spells. -/
def ipv4? (cs : List Char) : Option Nat := do
  let parts := cs.splitOn '.'
  let parts := if parts.getLast? = some [] then parts.dropLast else parts
  ipv4OfNumbers (← parts.mapM fun p => (ipv4Number p).join)

/-- The text of an address: its octets in decimal. -/
def ipv4Text (n : Nat) : List Char :=
  ['.'].intercalate ([24, 16, 8, 0].map fun s => Text.digits (n >>> s % 256))

/-! ## Addresses of 128 bits -/

/-- A piece of one to four hexadecimal digits. -/
def ipv6Piece (cs : List Char) : Option Nat :=
  if cs.isEmpty ∨ 4 < cs.length then none
  else (cs.mapM Text.hexValue?).map fun ds => ds.foldl (fun n d => n * 16 + d) 0

/-- A decimal octet without leading zeros. -/
def octet (cs : List Char) : Option Nat :=
  if cs.isEmpty ∨ !cs.all Char.isDigit ∨ (1 < cs.length ∧ cs.head? = some '0') then none
  else
    let n := Text.digitsValue cs
    if n ≤ 255 then some n else none

/-- The two pieces that four octets with points between them spell. -/
def dottedPieces (cs : List Char) : Option (List Nat) :=
  match (cs.splitOn '.').map octet with
  | [some a, some b, some c, some d] => some [a * 256 + b, c * 256 + d]
  | _ => none

/-- The pieces of a group; where `dotted` holds the last of them may be four octets. -/
def ipv6Pieces (dotted : Bool) : List (List Char) → Option (List Nat)
  | [] => some []
  | [p] =>
    if dotted ∧ p.contains '.' then dottedPieces p else (ipv6Piece p).map fun n => [n]
  | p :: ps => do return (← ipv6Piece p) :: (← ipv6Pieces dotted ps)

/-- The pieces of a group that may be empty. -/
def ipv6Group (dotted : Bool) (cs : List Char) : Option (List Nat) :=
  if cs.isEmpty then some [] else ipv6Pieces dotted (cs.splitOn ':')

/-- The parts before and after the first double colon. -/
def cutDoubleColon : List Char → Option (List Char × List Char)
  | ':' :: ':' :: cs => some ([], cs)
  | c :: cs => (cutDoubleColon cs).map fun p => (c :: p.1, p.2)
  | [] => none

/-- The eight pieces that a text spells; a double colon stands for one or more zeros. -/
def ipv6? (cs : List Char) : Option (List Nat) :=
  match cutDoubleColon cs with
  | some (before, after) => do
    let front ← ipv6Group false before
    let back ← ipv6Group true after
    let used := front.length + back.length
    if used ≤ 7 then some (front ++ List.replicate (8 - used) 0 ++ back) else none
  | none => do
    let pieces ← ipv6Group true cs
    if pieces.length = 8 then some pieces else none

/-- How many zeros a list starts with. -/
def leadingZeros (pieces : List Nat) : Nat := (pieces.takeWhile (· = 0)).length

/-- The length of the longest run of zeros. -/
def longestZeros : List Nat → Nat
  | [] => 0
  | p :: ps => max (leadingZeros (p :: ps)) (longestZeros ps)

/-- The pieces before and after the first run of `n` zeros. -/
def cutZeros (n : Nat) : List Nat → List Nat × List Nat
  | [] => ([], [])
  | p :: ps =>
    if n ≤ leadingZeros (p :: ps) then ([], (p :: ps).drop n)
    else
      let (front, back) := cutZeros n ps
      (p :: front, back)

/-- Pieces in hexadecimal with colons between them. -/
def piecesText (pieces : List Nat) : List Char := [':'].intercalate (pieces.map Text.hexDigits)

/-- The text of an address: the first of its longest runs of two or more zeros is left out. -/
def ipv6Text (pieces : List Nat) : List Char :=
  let n := longestZeros pieces
  if n < 2 then piecesText pieces
  else
    let (front, back) := cutZeros n pieces
    piecesText front ++ [':', ':'] ++ piecesText back

/-! ## Hosts -/

/-- The characters of a host. -/
def Host.chars : Host → List Char
  | .name text => text.toList
  | .ipv4 n => ipv4Text n
  | .ipv6 pieces => '[' :: ipv6Text pieces ++ [']']

/-- The text of a host. -/
def Host.text (h : Host) : String := String.ofList h.chars

/-- An address between brackets, where `cs` follows the opening one. -/
def bracketed (cs : List Char) : Except Flaw Host :=
  match Text.beforeSuffix? [']'] cs with
  | some inner =>
    match ipv6? inner with
    | some pieces => .ok (.ipv6 pieces)
    | none => .error .invalidIpv6
  | none => .error .invalidIpv6

/-- The characters that a host of a special scheme may not contain once it is decoded. -/
def forbiddenInDomain (c : Char) : Bool :=
  c.toNat ≤ 0x20 || 0x7F ≤ c.toNat ||
    ['%', '#', '/', ':', '<', '>', '?', '@', '[', '\\', ']', '^', '|'].contains c

/-- The characters that an opaque host may not contain. -/
def forbiddenInOpaque (c : Char) : Bool :=
  ['\x00', '\t', '\n', '\r', ' ', '#', '/', ':', '<', '>', '?', '@', '[', '\\', ']', '^',
    '|'].contains c

/-- The host of a special scheme that a text spells. -/
def webHost (cs : List Char) : Except Flaw Host :=
  match cs with
  | '[' :: inner => bracketed inner
  | cs =>
    let decoded := (percentDecode cs).map fun b => (Char.ofNat b.toNat).toLower
    if decoded.any forbiddenInDomain then .error .invalidDomain
    else if decoded.isEmpty then .error .emptyHost
    else if endsInNumber decoded then
      match ipv4? decoded with
      | some n => .ok (.ipv4 n)
      | none => .error .invalidIpv4
    else .ok (.name (String.ofList decoded))

/-- The host of any other scheme that a text spells. -/
def opaqueHost (cs : List Char) : Except Flaw Host :=
  match cs with
  | '[' :: inner => bracketed inner
  | cs =>
    if cs.any forbiddenInOpaque then .error .invalidHostCharacter
    else .ok (.name (String.ofList (percentEncode isControl cs)))

end PackageManager.Url
