/-!
# Octets and text

A text stands for the octets of its UTF-8 form, and some octets stand for no text. A document that
arrives over the network is read whatever it contains: an octet sequence that no character has is
replaced by U+FFFD. Exactly one replacement stands for each longest run of
octets that could still have become a character, so the machine below gives up at the first octet
that rules the character out and reads that octet again as the start of the next one.
-/

namespace PackageManager.Text

/-- The octets of a text. -/
def encode (cs : List Char) : List UInt8 := cs.flatMap String.utf8EncodeChar

/-- The text of a sequence of octets, if it has one. -/
def decode? (octets : List UInt8) : Option String := String.fromUTF8? ⟨octets.toArray⟩

/-- A character of which some octets have been read. -/
structure PartialChar where
  /-- The bits read so far. -/
  bits : Nat
  /-- How many octets are still owed; at least one. -/
  owed : Nat
  /-- The least octet that may come next. -/
  low : Nat
  /-- The greatest octet that may come next. -/
  high : Nat

/-- The character that stands for octets that are not UTF-8. -/
def replacement : Char := Char.ofNat 0xFFFD

/-- The first octet of a character: the character itself when it has one octet, what is still owed
when it has more, and a replacement when no character starts so. -/
def startChar (b : Nat) : List Char × Option PartialChar :=
  if b < 0x80 then ([Char.ofNat b], none)
  else if 0xC2 ≤ b ∧ b ≤ 0xDF then ([], some ⟨b - 0xC0, 1, 0x80, 0xBF⟩)
  else if b = 0xE0 then ([], some ⟨0, 2, 0xA0, 0xBF⟩)
  else if b = 0xED then ([], some ⟨0xD, 2, 0x80, 0x9F⟩)
  else if 0xE1 ≤ b ∧ b ≤ 0xEF then ([], some ⟨b - 0xE0, 2, 0x80, 0xBF⟩)
  else if b = 0xF0 then ([], some ⟨0, 3, 0x90, 0xBF⟩)
  else if 0xF1 ≤ b ∧ b ≤ 0xF3 then ([], some ⟨b - 0xF0, 3, 0x80, 0xBF⟩)
  else if b = 0xF4 then ([], some ⟨4, 3, 0x80, 0x8F⟩)
  else ([replacement], none)

/-- One more octet of the input. -/
def nextOctet (open? : Option PartialChar) (b : Nat) : List Char × Option PartialChar :=
  match open? with
  | none => startChar b
  | some p =>
    if p.low ≤ b ∧ b ≤ p.high then
      let bits := p.bits * 64 + (b - 0x80)
      if p.owed ≤ 1 then ([Char.ofNat bits], none) else ([], some ⟨bits, p.owed - 1, 0x80, 0xBF⟩)
    else
      let (cs, next) := startChar b
      (replacement :: cs, next)

/-- The rest of the text, with a character possibly half read. -/
def decodeFrom (open? : Option PartialChar) : List UInt8 → List Char
  | [] => if open?.isSome then [replacement] else []
  | b :: bs =>
    let (cs, next) := nextOctet open? b.toNat
    cs ++ decodeFrom next bs

/-- The text of a sequence of octets, with replacements for what is not UTF-8. -/
def decodeLossy (bytes : List UInt8) : String := String.ofList (decodeFrom none bytes)

end PackageManager.Text
