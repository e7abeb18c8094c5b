import ValueCoverage.Bytecode.Error
import ValueCoverage.Bytecode.Instruction

/-!
# Operand stack depth

The greatest depth that the operand stack reaches in code without jumps.
-/

namespace ValueCoverage.Bytecode

/-- How an instruction changes the depth; `effect` tells it for the method behind a pool index. -/
def stackEffect (effect : UInt16 → Int) : Instruction → Except BytecodeError Int
  | .nop => .ok 0
  | .iconst _ | .bipush _ | .sipush _ | .ldc _ | .ldcWide _ | .dup => .ok 1
  | .load kind _ => .ok kind.stackWords
  | .aastore => .ok (-3)
  | .anewarray _ => .ok 0
  | .invokestatic index => .ok (effect index)
  | .tableswitch _ _ _ _ | .lookupswitch _ _ => .ok (-1)
  | .other opcode _ => .error (.unknownStackEffect opcode)

/-- The depth now and the greatest depth so far. -/
structure Depth where
  now : Int
  peak : Int
deriving Repr, DecidableEq

/-- Goes past one instruction. -/
def Depth.step (effect : UInt16 → Int) (d : Depth) (i : Instruction) :
    Except BytecodeError Depth := do
  let change ← stackEffect effect i
  let now := d.now + change
  if now < 0 then .error .stackUnderflow else .ok ⟨now, max d.peak now⟩

/-- The greatest depth of the operand stack, which is empty at the start. -/
def peakDepth (effect : UInt16 → Int) (instructions : List Instruction) :
    Except BytecodeError UInt16 := do
  let d ← instructions.foldlM (Depth.step effect) ⟨0, 0⟩
  .ok (UInt16.ofNat d.peak.toNat)

end ValueCoverage.Bytecode
