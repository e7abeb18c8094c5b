import ValueCoverage.Bytes

/-!
# UTF-8

Bytes are read as a sequence of pieces: a well-formed piece is one character, an ill-formed piece is
the longest start of a character that the bytes hold. Strict reading accepts well-formed pieces
only; lenient reading puts the replacement character in the place of each ill-formed one.
-/

namespace ValueCoverage.Text

/-- Stands for bytes that are no character. -/
def replacement : Char := '\uFFFD'

/-- The bytes that continue a character. -/
def isContinuation (b : UInt8) : Bool :=
  decide (0x80 ≤ b.toNat ∧ b.toNat ≤ 0xBF)

/-- The six bits that a continuation byte carries. -/
def payload (b : UInt8) : Nat := b.toNat % 0x40

namespace Utf8

/-- How many bytes follow a lead byte, and the least and the greatest value of the first of them. -/
structure Tail where
  count : Nat
  least : Nat
  greatest : Nat

/-- The tail that a lead byte above the ASCII range asks for; the bounds on the second byte exclude
overlong forms, surrogates and code points past the last. -/
def tailOf (lead : Nat) : Option Tail :=
  if 0xC2 ≤ lead ∧ lead ≤ 0xDF then some ⟨1, 0x80, 0xBF⟩
  else if lead = 0xE0 then some ⟨2, 0xA0, 0xBF⟩
  else if lead = 0xED then some ⟨2, 0x80, 0x9F⟩
  else if 0xE1 ≤ lead ∧ lead ≤ 0xEF then some ⟨2, 0x80, 0xBF⟩
  else if lead = 0xF0 then some ⟨3, 0x90, 0xBF⟩
  else if 0xF1 ≤ lead ∧ lead ≤ 0xF3 then some ⟨3, 0x80, 0xBF⟩
  else if lead = 0xF4 then some ⟨3, 0x80, 0x8F⟩
  else none

/-- The value of the code point spelled by a lead byte and its continuation bytes. -/
def codePoint (lead : Nat) : Bytes → Nat
  | [b1] => lead % 0x20 * 0x40 + payload b1
  | [b1, b2] => (lead % 0x10 * 0x40 + payload b1) * 0x40 + payload b2
  | [b1, b2, b3] => ((lead % 0x8 * 0x40 + payload b1) * 0x40 + payload b2) * 0x40 + payload b3
  | _ => lead

/-- The piece that starts with `lead`, and how many bytes of `rest` belong to it. -/
def nextPiece (lead : UInt8) (rest : Bytes) : Option Char × Nat :=
  if lead.toNat < 0x80 then (some (Char.ofNat lead.toNat), 0)
  else
    match tailOf lead.toNat with
    | none => (none, 0)
    | some tail =>
      let continued :=
        match rest with
        | [] => []
        | b :: more =>
          if tail.least ≤ b.toNat ∧ b.toNat ≤ tail.greatest then
            b :: (more.take (tail.count - 1)).takeWhile isContinuation
          else []
      if continued.length = tail.count then
        (some (Char.ofNat (codePoint lead.toNat continued)), tail.count)
      else (none, continued.length)

/-- The pieces of a byte sequence; `skip` bytes belong to the piece before. -/
def pieces : Bytes → (skip : Nat) → List (Option Char) → List (Option Char)
  | [], _, done => done.reverse
  | _ :: rest, skip + 1, done => pieces rest skip done
  | b :: rest, 0, done =>
    let piece := nextPiece b rest
    pieces rest piece.2 (piece.1 :: done)

/-- The text that the bytes spell, if every piece is well formed. -/
def decode? (bytes : Bytes) : Option String :=
  let found := pieces bytes 0 []
  if found.all Option.isSome then some (String.ofList (found.filterMap id)) else none

/-- The text that the bytes spell, with the replacement character for each ill-formed piece. -/
def decodeLenient (bytes : Bytes) : String :=
  String.ofList ((pieces bytes 0 []).map (·.getD replacement))

/-- The bytes of a text. -/
def encode (s : String) : Bytes :=
  s.toList.flatMap String.utf8EncodeChar

end Utf8

/-- How many bytes the characters take. -/
def byteLength (cs : List Char) : Nat :=
  cs.foldl (fun n c => n + c.utf8Size) 0

end ValueCoverage.Text
