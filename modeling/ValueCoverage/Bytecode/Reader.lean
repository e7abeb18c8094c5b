import ValueCoverage.Bytecode.Error
import ValueCoverage.Bytecode.Instruction

/-!
# Reading method code

Code is read from the front, one instruction after the other, each with its place. Where a switch
stands decides how many bytes of padding it has, so reading an instruction needs its place. Places
are told in words of four bytes, which start again at zero behind 4 GiB.
-/

namespace ValueCoverage.Bytecode

/-- An instruction, how many bytes it took, and what follows it. -/
structure Step where
  instruction : Instruction
  size : Nat
  rest : Bytes

def orEnd {α : Type} : Option α → Except DecodeFault α
  | some a => .ok a
  | none => .error .unexpectedEnd

/-- Takes a signed four-byte word off the front. -/
def getInt32 (bytes : Bytes) : Except DecodeFault (Int32 × Bytes) := do
  let (w, rest) ← orEnd bytes.get32?
  .ok (w.toInt32, rest)

def getPair (bytes : Bytes) : Except DecodeFault ((Int32 × Int32) × Bytes) := do
  let (key, rest) ← getInt32 bytes
  let (offset, rest) ← getInt32 rest
  .ok ((key, offset), rest)

/-- The load family whose long form has the opcode. -/
def loadKind? (op : Nat) : Option LoadKind :=
  if 0x15 ≤ op then LoadKind.all[op - 0x15]? else none

def plainStep (i : Instruction) (rest : Bytes) : Except DecodeFault Step :=
  .ok ⟨i, 1, rest⟩

def byteStep (f : UInt8 → Instruction) (rest : Bytes) : Except DecodeFault Step := do
  let (b, rest) ← orEnd rest.get8?
  .ok ⟨f b, 2, rest⟩

def wordStep (f : UInt16 → Instruction) (rest : Bytes) : Except DecodeFault Step := do
  let (w, rest) ← orEnd rest.get16?
  .ok ⟨f w, 3, rest⟩

/-- A table switch at `pc`, after its opcode. -/
def tableStep (pc : Nat) (rest : Bytes) : Except DecodeFault Step := do
  let padding := switchPadding pc
  let (_, rest) ← orEnd (rest.split? padding)
  let (default, rest) ← getInt32 rest
  let (low, rest) ← getInt32 rest
  let (high, rest) ← getInt32 rest
  if high.toInt < low.toInt then .error .invalidSwitch
  else
    let count := (high.toInt - low.toInt + 1).toNat
    let (offsets, rest) ← Bytes.many getInt32 count [] rest
    .ok ⟨.tableswitch default low high offsets, 13 + padding + 4 * count, rest⟩

/-- A lookup switch at `pc`, after its opcode. -/
def lookupStep (pc : Nat) (rest : Bytes) : Except DecodeFault Step := do
  let padding := switchPadding pc
  let (_, rest) ← orEnd (rest.split? padding)
  let (default, rest) ← getInt32 rest
  let (count, rest) ← getInt32 rest
  if count.toInt < 0 then .error .invalidSwitch
  else
    let (pairs, rest) ← Bytes.many getPair count.toInt.toNat [] rest
    .ok ⟨.lookupswitch default pairs, 9 + padding + 8 * count.toInt.toNat, rest⟩

/-- The opcode that widens the operands of the next. -/
def wideOpcode : UInt8 := 0xC4

/-- A widened instruction, after the widening opcode. -/
def wideStep (rest : Bytes) : Except DecodeFault Step := do
  let (inner, rest) ← orEnd rest.get8?
  let op := inner.toNat
  match loadKind? op with
  | some kind =>
    let (slot, rest) ← orEnd rest.get16?
    .ok ⟨.load kind slot, 4, rest⟩
  | none =>
    if (0x36 ≤ op ∧ op ≤ 0x3A) ∨ op = 0xA9 then
      let (operands, rest) ← orEnd (rest.split? 2)
      .ok ⟨.other wideOpcode (inner :: operands), 4, rest⟩
    else if op = 0x84 then
      let (operands, rest) ← orEnd (rest.split? 4)
      .ok ⟨.other wideOpcode (inner :: operands), 6, rest⟩
    else .error (.invalidOpcode inner)

/-- An instruction without a constructor of its own, after its opcode. -/
def otherStep (opcode : UInt8) (rest : Bytes) : Except DecodeFault Step :=
  match operandLength opcode.toNat with
  | none => .error (.invalidOpcode opcode)
  | some n => do
    let (operands, rest) ← orEnd (rest.split? n)
    .ok ⟨.other opcode operands, 1 + n, rest⟩

/-- The instruction at `pc`, after its opcode. -/
def stepAfter (pc : Nat) (opcode : UInt8) (rest : Bytes) : Except DecodeFault Step :=
  let op := opcode.toNat
  if op = 0x00 then plainStep .nop rest
  else if 0x02 ≤ op ∧ op ≤ 0x08 then plainStep (.iconst (Int8.ofInt ((op : Int) - 3))) rest
  else if op = 0x10 then byteStep (fun b => .bipush b.toInt8) rest
  else if op = 0x11 then wordStep (fun w => .sipush w.toInt16) rest
  else if op = 0x12 then byteStep .ldc rest
  else if op = 0x13 then wordStep .ldcWide rest
  else if 0x1A ≤ op ∧ op ≤ 0x2D then
    match LoadKind.all[(op - 0x1A) / 4]? with
    | some kind => plainStep (.load kind (UInt16.ofNat ((op - 0x1A) % 4))) rest
    | none => .error (.invalidOpcode opcode)
  else if op = 0x53 then plainStep .aastore rest
  else if op = 0x59 then plainStep .dup rest
  else if op = 0xAA then tableStep pc rest
  else if op = 0xAB then lookupStep pc rest
  else if op = 0xB8 then wordStep .invokestatic rest
  else if op = 0xBD then wordStep .anewarray rest
  else if opcode = wideOpcode then wideStep rest
  else
    match loadKind? op with
    | some kind => byteStep (fun b => .load kind (UInt16.ofNat b.toNat)) rest
    | none => otherStep opcode rest

/-- The instruction at the front of the bytes, which stand at `pc`. -/
def step (pc : Nat) : Bytes → Except DecodeFault Step
  | [] => .error .unexpectedEnd
  | opcode :: rest => stepAfter pc opcode rest

/-- A place as it is told, in a word of four bytes. -/
def placeWord (pos : Nat) : Nat := (UInt32.ofNat pos).toNat

/-- Reads the instructions from `pos` on; those read so far are kept back to front. Every
instruction takes a byte, so the number of bytes bounds the loop. -/
def decodeFrom : (bound pos : Nat) → Bytes → List (Nat × Instruction) →
    Except BytecodeError (List (Nat × Instruction))
  | _, _, [], done => .ok done.reverse
  | 0, pos, _ :: _, _ => .error (.decode (placeWord pos) .unexpectedEnd)
  | bound + 1, pos, bytes, done =>
    let pc := placeWord pos
    match step pc bytes with
    | .error fault => .error (.decode pc fault)
    | .ok s => decodeFrom bound (pos + s.size) s.rest ((pc, s.instruction) :: done)

/-- The instructions of a method body with their places. -/
def decode (code : Bytes) : Except BytecodeError (List (Nat × Instruction)) :=
  decodeFrom code.length 0 code []

end ValueCoverage.Bytecode
