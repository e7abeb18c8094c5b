import ValueCoverage.Bytecode.Instruction

/-!
# Writing method code

Every instruction is written in its shortest form. The place of an instruction matters for the
padding of switches only.
-/

namespace ValueCoverage

def putInt32 (n : Int32) : Bytes := Bytes.put32 n.toUInt32

namespace LoadKind

/-- The shortest form of a load. -/
def bytes (kind : LoadKind) (slot : UInt16) : Bytes :=
  let long := UInt8.ofNat (0x15 + kind.index)
  if slot.toNat ≤ 3 then [UInt8.ofNat (0x1A + kind.index * 4 + slot.toNat)]
  else if slot.toNat ≤ 0xFF then [long, UInt8.ofNat slot.toNat]
  else 0xC4 :: long :: Bytes.put16 slot

end LoadKind

namespace Instruction

def bytes (pc : Nat) : Instruction → Bytes
  | .nop => [0x00]
  | .iconst n => [n.toUInt8 + 3]
  | .bipush n => [0x10, n.toUInt8]
  | .sipush n => 0x11 :: Bytes.put16 n.toUInt16
  | .ldc index => [0x12, index]
  | .ldcWide index => 0x13 :: Bytes.put16 index
  | .load kind slot => kind.bytes slot
  | .dup => [0x59]
  | .aastore => [0x53]
  | .anewarray index => 0xBD :: Bytes.put16 index
  | .invokestatic index => 0xB8 :: Bytes.put16 index
  | .tableswitch default low high offsets =>
    0xAA :: List.replicate (switchPadding pc) 0 ++ putInt32 default ++ putInt32 low ++
      putInt32 high ++ offsets.flatMap putInt32
  | .lookupswitch default pairs =>
    0xAB :: List.replicate (switchPadding pc) 0 ++ putInt32 default ++
      Bytes.put32 (UInt32.ofNat pairs.length) ++
      pairs.flatMap fun p => putInt32 p.1 ++ putInt32 p.2
  | .other opcode operands => opcode :: operands

end Instruction

namespace Bytecode

/-- Writes instructions from `pc` on; the pieces written so far are kept back to front. -/
def encodeFrom : (pc : Nat) → List Instruction → List Bytes → List Bytes
  | _, [], done => done.reverse
  | pc, i :: rest, done =>
    let piece := i.bytes pc
    encodeFrom (pc + piece.length) rest (piece :: done)

/-- The bytes of instructions, the first of which stands at `start`. -/
def encode (start : Nat) (instructions : List Instruction) : Bytes :=
  (encodeFrom start instructions []).flatten

end Bytecode

end ValueCoverage
