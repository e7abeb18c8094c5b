import ValueCoverage.Text.Utf8

/-!
# Modified UTF-8

The encoding of names and string constants in class files. Text is first written in 16-bit units;
a unit takes one, two or three bytes, and the unit zero takes two, so no encoded text holds a zero
byte. A character past the first plane is two units and hence six bytes.
-/

namespace ValueCoverage.Text.ModifiedUtf8

/-- The 16-bit units of a character: one, or a high and a low surrogate. -/
def unitsOf (c : Char) : List Nat :=
  if c.toNat < 0x10000 then [c.toNat]
  else [0xD800 + (c.toNat - 0x10000) / 0x400, 0xDC00 + (c.toNat - 0x10000) % 0x400]

/-- The bytes of one unit. -/
def unitBytes (u : Nat) : Bytes :=
  if 0 < u ∧ u < 0x80 then [UInt8.ofNat u]
  else if u < 0x800 then [UInt8.ofNat (0xC0 + u / 0x40), UInt8.ofNat (0x80 + u % 0x40)]
  else [UInt8.ofNat (0xE0 + u / 0x1000), UInt8.ofNat (0x80 + u / 0x40 % 0x40),
    UInt8.ofNat (0x80 + u % 0x40)]

/-- The bytes of a text. -/
def encode (s : String) : Bytes :=
  (s.toList.flatMap unitsOf).flatMap unitBytes

/-- The units that the bytes spell. A zero byte and a lead byte of four spell nothing; a unit that
could take fewer bytes is read all the same. -/
def readUnits : Bytes → List Nat → Option (List Nat)
  | [], done => some done.reverse
  | lead :: rest, done =>
    if 0 < lead.toNat ∧ lead.toNat < 0x80 then readUnits rest (lead.toNat :: done)
    else if 0xC0 ≤ lead.toNat ∧ lead.toNat ≤ 0xDF then
      match rest with
      | b1 :: rest =>
        if isContinuation b1 then
          readUnits rest ((lead.toNat % 0x20 * 0x40 + payload b1) :: done)
        else none
      | [] => none
    else if 0xE0 ≤ lead.toNat ∧ lead.toNat ≤ 0xEF then
      match rest with
      | b1 :: b2 :: rest =>
        if isContinuation b1 && isContinuation b2 then
          readUnits rest (((lead.toNat % 0x10 * 0x40 + payload b1) * 0x40 + payload b2) :: done)
        else none
      | _ => none
    else none

/-- The characters that units spell; a surrogate without its partner spells none. -/
def readChars : List Nat → List Char → Option (List Char)
  | [], done => some done.reverse
  | u :: rest, done =>
    if 0xD800 ≤ u ∧ u ≤ 0xDBFF then
      match rest with
      | v :: rest =>
        if 0xDC00 ≤ v ∧ v ≤ 0xDFFF then
          readChars rest (Char.ofNat (0x10000 + (u - 0xD800) * 0x400 + (v - 0xDC00)) :: done)
        else none
      | [] => none
    else if 0xDC00 ≤ u ∧ u ≤ 0xDFFF then none
    else readChars rest (Char.ofNat u :: done)

/-- The text that the bytes spell. -/
def decode? (bytes : Bytes) : Option String := do
  let units ← readUnits bytes []
  let chars ← readChars units []
  some (String.ofList chars)

end ValueCoverage.Text.ModifiedUtf8
