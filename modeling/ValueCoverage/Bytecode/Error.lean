/-!
# Faults of method code
-/

namespace ValueCoverage

/-- Why an instruction cannot be read. -/
inductive DecodeFault where
  | unexpectedEnd
  | invalidOpcode (opcode : UInt8)
  | invalidSwitch
deriving Repr, DecidableEq

/-- What is wrong with method code. -/
inductive BytecodeError where
  /-- The instruction at `pc` cannot be read. -/
  | decode (pc : Nat) (fault : DecodeFault)
  | unknownStackEffect (opcode : UInt8)
  | stackUnderflow
deriving Repr, DecidableEq

def BytecodeError.kind : BytecodeError → String
  | .decode _ .unexpectedEnd => "UnexpectedEnd"
  | .decode _ (.invalidOpcode _) => "InvalidOpcode"
  | .decode _ .invalidSwitch => "InvalidSwitch"
  | .unknownStackEffect _ => "UnknownStackEffect"
  | .stackUnderflow => "StackUnderflow"

/-- An opcode as a message gives it, in two hexadecimal digits. -/
def shownOpcode (opcode : UInt8) : String :=
  let ds := Nat.toDigits 16 opcode.toNat
  "0x" ++ String.ofList (List.replicate (2 - ds.length) '0' ++ ds)

def BytecodeError.message : BytecodeError → String
  | .decode pc .unexpectedEnd => s!"code ends inside the instruction at pc {pc}"
  | .decode pc (.invalidOpcode opcode) => s!"invalid opcode {shownOpcode opcode} at pc {pc}"
  | .decode pc .invalidSwitch => s!"malformed switch at pc {pc}"
  | .unknownStackEffect opcode => s!"no stack effect known for opcode {shownOpcode opcode}"
  | .stackUnderflow => "operand stack underflow"

end ValueCoverage
